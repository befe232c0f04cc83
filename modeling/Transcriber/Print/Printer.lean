import Transcriber.Print.Handler
import Transcriber.Print.Outline

/-!
# Printing blocks

A block is printed as lines: its prologue, its head one level deeper, its body one level deeper, its
epilogue.  Settings name the handlers that make prologue, head and epilogue.  Printing can change
blocks: static expressions move to the end of the module, and the module prints what was moved while
it is being printed; methods of one name get names of their own.

* `Printer.prologue`, `hasHead`, `body` — the parts of a block (`iterPrologue`, `iterHead`, `iterBody`);
  `classLine` and `methodLine` are the lines that open it (`iterDecl`), `handlers` (`configHandlers`).
* `Printer.dumpBlock` — the lines of a block (`dump`); `textOf` its text (`dumps`).
* `Build.printer` — a printer for all blocks of the workshop.
* `Build.source`, `Build.dump`, `Build.outline` — the texts of a block.
-/

namespace Transcriber

open Build

variable [Chronicle]

/-- How blocks are printed. -/
structure Printer where
  text : BlockId → Build String
  dump : Int → BlockId → Build String

namespace Printer

/-- How blocks are written inside other texts. -/
def texts (p : Printer) : Fill.Texts := ⟨p.text, Outline.line p.text⟩

/-- A line behind its indentation.  A line of blanks becomes an empty one. -/
def lineText (indent line : String) : String :=
  let s := indent ++ line ++ "\n"
  if Text.allBlank s then "\n" else s

/-- The handlers that the settings have for a part of a block, layer by layer.  A text stands for
the handler that gives it as a line. -/
def handlers (id : BlockId) (part ending : String) : Build (List Value) := do
  let layers := (← get).config.every (← settingName id part ending) (.list [])
  let values ← layers.mapM fun layer => lift layer.items
  return values.flatten.map fun v =>
    match v with
    | .text s => .handler (.echo s)
    | v => v

/-- Calls the handlers for a part of a block.  The sequences that they give come to life later. -/
def callAll (p : Printer) (id : BlockId) (part : String) : Build (List Called) := do
  (← handlers id part "Handlers").mapM fun h =>
    tryCatch (h.call p.texts [.block id]) fun failure =>
      throw (if failure == .notFound then .interrupted else failure)

def itemsOf (p : Printer) (id : BlockId) (part : String) : Build (List Value) := do
  return (← (← callAll p id part).mapM Called.items).flatten

def classLine (p : Printer) (id : BlockId) : Build (List Value) := do
  let bases ← (← itemsOf p id "Base").mapM fun v =>
    match v with
    | .text s => pure s
    | _ => throw .mismatch
  let joined := ", ".intercalate bases
  let inParens := if joined.isEmpty then "" else "(" ++ joined ++ ")"
  return [.text ("class " ++ Handler.nameText (← block id).name ++ inParens ++ ":")]

def paramText (p : Printer) (v : Value) : Build String := do
  let hasDefault ← lift (v.holds "default")
  let field := fun key =>
    match v with
    | .table entries =>
        match entries.lookup key with
        | some found => pure found
        | none => throw .key
    | _ => throw .mismatch
  if hasDefault then
    return (← (← field "name").written p.texts) ++ "=" ++ (← (← field "default").written p.texts)
  else
    match ← field "name" with
    | .text s => return s
    | _ => throw .mismatch

def methodLine (p : Printer) (id : BlockId) : Build (List Value) := do
  let params ← (← itemsOf p id "Param").mapM (paramText p)
  return [.text ("def " ++ Handler.nameText (← block id).name ++ "(" ++ ", ".intercalate params
    ++ "):")]

def decorators (id : BlockId) : Called := .sequence (do return (← block id).decorators.map .ofOperand)

/-- The sequences of a block's prologue: what the handlers give, then decorators and the opening
line. -/
def prologue (p : Printer) (id : BlockId) : Build (List Called) := do
  let b ← block id
  match b.form with
  | .statement _ opening => return [.sequence (pure [.block opening])]
  | _ =>
      let called ← callAll p id "Prologue"
      if b.isClass then return called ++ [decorators id, .sequence (classLine p id)]
      else if b.isMethod then return called ++ [decorators id, .sequence (methodLine p id)]
      else return called

/-- Writes the items of sequences as lines, one sequence after the other. -/
def writeAll (p : Printer) (indent : String) : List Called → Build String
  | [] => pure ""
  | called :: rest => do
      let written ← (← called.items).mapM fun item =>
        match item with
        | .none => pure ""
        | item => do return lineText indent (← item.written p.texts)
      return String.join written ++ (← writeAll p indent rest)

/-- Writes the head of a block: texts and blocks one level deeper. -/
def writeHead (p : Printer) (level : Int) : List Called → Build String
  | [] => pure ""
  | called :: rest => do
      let written ← (← called.items).mapM fun item =>
        match item with
        | .none => pure ""
        | .text s => do return lineText (← Handler.indentAt level) s
        | .block id => p.dump level id
        | _ => throw .absent
      return String.join written ++ (← writeHead p level rest)

/-- Whether a block has anything in its head: the first item that counts as true decides. -/
def hasHead (p : Printer) (id : BlockId) : Build Bool := do
  any (← callAll p id "Head")
where
  /-- Whether one of some sequences has an item that counts. -/
  any : List Called → Build Bool
    | [] => pure false
    | called :: rest => do
        let found := (← called.items).any fun item =>
          match item with
          | .text _ => true
          | item => item.truthy
        if found then return true else any rest

/-- A line of a body: a block, or a line without a block of its own. -/
inductive BodyItem where
  | block (id : BlockId)
  | line (text : String)

/-- Whether an empty line stands between two blocks of a type. -/
def blankBetween (before after : Block) : Bool :=
  if before.form.sortName != after.form.sortName && !before.isComment then true
  else if after.isMethod && before.isMethod then true
  else before.isClass

def spaced (w : Workshop) : Option BlockId → List BlockId → List BodyItem
  | _, [] => []
  | before, id :: rest =>
      let blank := match before.bind fun b => w.blocks[b]?, w.blocks[id]? with
        | some before, some after => blankBetween before after
        | _, _ => false
      (if blank then [.line ""] else []) ++ .block id :: spaced w (some id) rest

def body (p : Printer) (id : BlockId) : Build (List BodyItem) := do
  let b ← block id
  if b.isClass then
    (← handlers id "PostWalk" "Handlers").forM fun h => do
      let _ ← h.call p.texts [.block id]
    let head ← hasHead p id
    let children := (← block id).children
    if children.isEmpty && !head then return [.line "pass"]
    return spaced (← get) none children
  else if b.isMethod then
    let head ← hasHead p id
    let children := (← block id).children
    if children.isEmpty && !head then return [.line "pass"]
    return children.map .block
  else return b.children.map .block

def writeItem (p : Printer) (level : Int) : BodyItem → Build String
  | .block id => p.dump level id
  | .line text => do return lineText (← Handler.indentAt level) text

/-- How many empty lines stand between two blocks of a module. -/
def blanksBetween (before after : Block) : Nat :=
  if before.isComment then 0 else if before.isClass && after.isClass then 2 else 1

/-- Writes the children of a module from a position on.  Children that are added meanwhile are
written too. -/
def writeModule (p : Printer) (level : Int) (id : BlockId) : Nat → Nat → Build String
  | 0, _ => pure ""
  | fuel + 1, index => do
      let children := (← block id).children
      match children[index]? with
      | none => pure ""
      | some child =>
          let after ← block child
          let blanks ← match index with
            | 0 => pure 0
            | before + 1 =>
                match children[before]? with
                | some previous => do pure (blanksBetween (← block previous) after)
                | none => pure 0
          let blank := lineText (← Handler.indentAt level) ""
          let written ← p.dump level child
          return String.join (List.replicate blanks blank) ++ written
            ++ (← writeModule p level id fuel (index + 1))

def dumpBlock (p : Printer) (level : Int) (id : BlockId) : Build String := do
  let b ← block id
  let indent ← Handler.indentAt level
  if b.isExpression then return lineText indent (← p.text id)
  else
    let opening ← writeAll p indent (← prologue p id)
    let head ← writeHead p (level + 1) (← callAll p id "Head")
    let body ← if b.isModule then
        writeModule p (level + 1) id (2 * (← get).blocks.size + 1) 0
      else do
        let items ← body p id
        String.join <$> items.mapM (writeItem p (level + 1))
    let closing ← writeAll p indent (← callAll p id "Epilogue")
    return opening ++ head ++ body ++ closing

/-- The text of a block.  An expression fills its template; any other block is printed, and the
settings may rework the result. -/
def textOf (p : Printer) (id : BlockId) : Build String := do
  match (← block id).form.expr? with
  | some e => Fill.fill p.texts e
  | none =>
      let printed ← dumpBlock p (-1) id
      let result ← (← handlers id "Output" "Handlers").foldlM
        (fun v h => do return (← h.call p.texts [.block id, v]).toValue) (.text printed)
      match result with
      | .text s => return s
      | _ => throw .mismatch

/-- A printer that can go one level deeper. -/
def next (p : Printer) : Printer := ⟨textOf p, dumpBlock p⟩

def forLevels : Nat → Printer
  | 0 => ⟨fun _ => throw .depth, fun _ _ => throw .depth⟩
  | levels + 1 => (forLevels levels).next

end Printer

namespace Build

def printer : Build Printer := do return .forLevels (2 * (← get).blocks.size + 8)

def source (id : BlockId) : Build String := do (← printer).text id

def dump (level : Int) (id : BlockId) : Build String := do (← printer).dump level id

def outlineLine (id : BlockId) : Build String := do Outline.line (← printer).text id

def outline (level : Int) (id : BlockId) : Build String := do
  Outline.treeUpTo (← printer).text Handler.indentAt ((← get).blocks.size + 1) level id

end Build

end Transcriber
