import Mathlib.Data.List.Forall2
import Transcriber.Config.Standard
import Transcriber.Proofs.Store
import Transcriber.Walk.Visit

/-!
# The standard settings at work

What the parts of blocks that settings decide come to under the standard settings.

* `Build.settingName_apply`, `Build.setting_standard` — the setting of a block.
* `Printer.handlers_standard`, `Printer.callAll_standard` — the handlers for a part of a block, and what
  they give.
* `Handler.indentAt_standard` — what stands at the start of lines.
-/

namespace Transcriber

open Build

variable {w : Workshop} {id : Nat} {b : Block}

theorem Build.settingName_apply (hb : w.blocks[id]? = some b) (part ending : String) :
    settingName id part ending w = .ok (b.form.settingKey ++ part ++ ending) w := by
  unfold settingName
  rw [bind_of_ok (block_apply w id hb)]
  rfl

theorem Build.setting_standard (hconfig : w.config = .standard) (hb : w.blocks[id]? = some b)
    (part ending : String) (default : Value) :
    setting id part ending default w
      = .ok (Config.standard.last (b.form.settingKey ++ part ++ ending) default) w := by
  unfold setting
  rw [bind_of_ok (get_apply w), bind_of_ok (settingName_apply hb _ _), hconfig]
  rfl

theorem Printer.handlers_standard (hconfig : w.config = .standard) (hb : w.blocks[id]? = some b)
    {part ending : String} {items : List Value}
    (hitems : (standardLayer.lookup (b.form.settingKey ++ part ++ ending)).getD (.list []) = .list items) :
    Printer.handlers id part ending w = .ok (items.map fun v => match v with
      | .text s => .handler (.echo s)
      | v => v) w := by
  have hlayers : Config.standard.every (b.form.settingKey ++ part ++ ending) (.list [])
      = [.list items] := congrArg (fun v => [v]) hitems
  unfold Printer.handlers
  rw [bind_of_ok (get_apply w), bind_of_ok (settingName_apply hb part ending), hconfig, hlayers]
  have hflat : ([items] : List (List Value)).flatten = items := List.flatten_singleton ..
  exact congrArg (fun values => EStateM.Result.ok (List.map _ values) w) hflat

theorem about_items {f : BlockId → Build (List Value)} {w' : Workshop} {items : List Value}
    (h : f id w = .ok items w') : (Handler.about f (.block id)).items w = .ok items w' :=
  rethrow_eq_ok.2 h

variable {called : List Called}

theorem mapM_call {p : Printer} {hs : List Handler}
    (h : List.Forall₂ (fun h c => h.call p.texts [.block id] w = .ok c w) hs called) :
    (hs.map Value.handler).mapM (fun v => tryCatch (v.call p.texts [.block id]) fun failure =>
        throw (if failure == .notFound then .interrupted else failure)) w
      = .ok called w := by
  induction h with
  | nil => rfl
  | @cons h c _ _ hcall _ ih =>
    have hvalue : (Value.handler h).call p.texts [.block id] w = .ok c w := hcall
    rw [List.map_cons, List.mapM_cons, bind_of_ok (rethrow_eq_ok.2 hvalue), bind_of_ok ih]
    rfl

/-- What the handlers give that the standard settings have for a part of a block. -/
theorem Printer.callAll_standard (hconfig : w.config = .standard) (p : Printer)
    (hb : w.blocks[id]? = some b) {part : String} (hs : List Handler)
    (hitems : (standardLayer.lookup (b.form.settingKey ++ part ++ "Handlers")).getD (.list [])
      = Standard.handlers hs)
    (hcall : List.Forall₂ (fun h c => h.call p.texts [.block id] w = .ok c w) hs called) :
    Printer.callAll p id part w = .ok called w := by
  have hvalues : Printer.handlers id part "Handlers" w = .ok (hs.map .handler) w := by
    rw [handlers_standard hconfig hb hitems, List.map_map]
    rfl
  unfold Printer.callAll
  rw [bind_of_ok hvalues]
  exact mapM_call hcall

theorem Printer.writeAll_lines (p : Printer) (indent : String) {texts : List (List String)}
    (h : List.Forall₂ (fun c lines => c.items w = .ok (Handler.lines lines) w) called texts) :
    Printer.writeAll p indent called w = .ok (String.join (texts.flatten.map (Printer.lineText indent))) w := by
  induction h with
  | nil => rfl
  | @cons c lines called texts hc _ ih =>
    unfold Printer.writeAll
    rw [bind_of_ok hc]
    refine (bind_of_ok (show _ = EStateM.Result.ok (lines.map (Printer.lineText indent)) w from ?_)).trans ?_
    · rw [Handler.lines, List.mapM_map]
      exact mapM_apply_of_ok fun s _ => rfl
    · rw [bind_of_ok ih, List.flatten_cons, List.map_append, String.join_append]
      rfl

/-- The standard settings have no handlers that change a block after a visit. -/
theorem Build.mutate_standard [Chronicle] (hconfig : w.config = .standard) (hb : w.blocks[id]? = some b) :
    mutate id w = .ok () w := by
  have hitems : (standardLayer.lookup (b.form.settingKey ++ "PostWalk" ++ "Mutators")).getD (.list [])
      = .list [] := by
    cases b.form <;> rfl
  unfold Build.mutate
  rw [bind_of_ok (Printer.handlers_standard hconfig hb hitems)]
  rfl

/-- What stands at the start of the lines of a level under the standard settings. -/
def indentOf (level : Int) : String := String.join (List.replicate level.toNat "    ")

theorem Handler.indentAt_standard (hconfig : w.config = .standard) (level : Int) :
    Handler.indentAt level w = .ok (indentOf level) w := by
  have hindent : Handler.indent w = .ok (.text "    ") w := by
    change EStateM.Result.ok (w.config.last "indentPrefix" (.text "    ")) w = _
    rw [hconfig]
    rfl
  unfold Handler.indentAt
  rw [bind_of_ok hindent]
  rfl

end Transcriber
