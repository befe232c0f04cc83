import Mathlib.Tactic.FinCases
import Transcriber.Proofs.Expression.Writing
import Transcriber.Proofs.Source.Height

/-!
# The depth of a visit

A visit goes no deeper than the tree is high, so the bound on its depth is never felt.

* `Expression.write_template`, `Expression.write_expr`, … — the visits of nodes of single kinds.
-/

namespace Transcriber

open Source Cursor

namespace Expression

/-- Two ways to write agree on all nodes below a height. -/
def Agree (height : Nat) (f g : Writing) : Prop :=
  ∀ (s : Scope) (d : Cursor), d.tree.height < height → f s d = g s d

section

variable {f g : Writing} {c : Cursor} (h : Agree c.tree.height f g) (s : Scope)

include h

theorem writeMaybe_congr {d : Option Cursor} (hlt : ∀ e, d = some e → e.tree.height < c.tree.height) :
    writeMaybe f s d = writeMaybe g s d := by
  cases d with
  | none => rfl
  | some d => exact h s d (hlt d rfl)

theorem writeOperands_congr (t : Scope) : writeOperands f s t c = writeOperands g s t c := by
  funext sheet
  unfold writeOperands writeBoth
  rw [writeMaybe_congr h s fun _ => height_get?, writeMaybe_congr h t fun _ => height_get?]

theorem writeRow_congr (slot : String) {cs : List Cursor} (hlt : ∀ d ∈ cs, d.tree.height < c.tree.height)
    (template : String) : writeRow f slot s template cs = writeRow g slot s template cs := by
  induction cs generalizing template with
  | nil => rfl
  | cons d cs ih =>
    rw [writeRow, writeRow, h s d (hlt d (.head _)), ih fun e he => hlt e (.tail _ he)]

theorem foldlM_congr {cs : List Cursor} (hlt : ∀ d ∈ cs, d.tree.height < c.tree.height) (sheet : Sheet) :
    cs.foldlM (fun sheet child => f s child sheet) sheet
      = cs.foldlM (fun sheet child => g s child sheet) sheet := by
  induction cs generalizing sheet with
  | nil => rfl
  | cons d cs ih =>
    rw [List.foldlM_cons, List.foldlM_cons, h s d (hlt d (.head _))]
    exact bind_congr fun sheet' => ih (fun e he => hlt e (.tail _ he)) sheet'

theorem writeCall_congr : writeCall f s c = writeCall g s c := by
  unfold writeCall
  rw [writeMaybe_congr h s fun _ => height_head?]
  refine bind_congr fun callee => ?_
  cases hlist : c.child? .argumentList with
  | none => rfl
  | some list =>
    dsimp only
    rw [writeRow_congr h s _ fun d hd => (height_child hd).trans (height_child? hlist)]

theorem writeAccept_congr (sheet : Sheet) : writeAccept f s c sheet = writeAccept g s c sheet := by
  have hkind : ∀ (t : Scope) (kind : Kind), writeMaybe f t (c.child? kind) = writeMaybe g t (c.child? kind) :=
    fun t kind => writeMaybe_congr h t fun _ => height_child?
  have hat : ∀ i : Nat, writeMaybe f s c.children[i]? = writeMaybe g s c.children[i]? := fun i =>
    writeMaybe_congr h s fun _ => height_get?
  unfold writeAccept writeCast writeShift writeChoice writeConstruct writeInstanceOf writeSelfCall writeArray
  simp only [writeOperands_congr h, writeCall_congr h, hkind, hat]

theorem writeVisit_congr (sheet : Sheet) : writeVisit f s c sheet = writeVisit g s c sheet := by
  unfold writeVisit
  rw [writeAccept_congr h]
  refine bind_congr fun next => ?_
  cases next with
  | done sheet => rfl
  | here sheet => exact foldlM_congr h s (fun _ => height_child) sheet
  | inside sheet t inner => exact congrArg (· >>= _) (foldlM_congr h t (fun _ => height_child) inner)

end

theorem writeUpTo_congr {n m : Nat} {s : Scope} {c : Cursor} {sheet : Sheet}
    (hn : c.tree.height ≤ n) (hm : c.tree.height ≤ m) :
    writeUpTo n s c sheet = writeUpTo m s c sheet := by
  induction n generalizing m s c sheet with
  | zero => exact absurd hn (by rw [c.tree.height_eq]; omega)
  | succ n ih =>
    obtain ⟨m, rfl⟩ := Tree.exists_fuel hm
    exact writeVisit_congr (fun t d hd => funext fun _ => ih (by omega) (by omega)) s sheet

theorem write_eq (s : Scope) (c : Cursor) (sheet : Sheet) : write s c sheet = writeVisit write s c sheet := by
  unfold write
  obtain ⟨n, hn⟩ := Tree.exists_fuel (Nat.le_refl c.tree.height)
  rw [hn]
  exact writeVisit_congr (fun t d hd => funext fun _ => writeUpTo_congr (by omega) (Nat.le_refl _)) s sheet

/-! ## Nodes of single kinds -/

section

variable {s : Scope} {c : Cursor} {sheet : Sheet}

theorem write_template {template : String} (h : template? c.kind c.text = some template) :
    write s c sheet = writeOperands write s s c { sheet with template } := by
  rw [write_eq]
  unfold writeVisit writeAccept
  rw [h]
  dsimp only
  cases writeOperands write s s c { sheet with template } <;> rfl

theorem write_literal (h : literals.contains c.kind = true) :
    write s c sheet = .ok { sheet with left := .atom (.text c.text) } := by
  have hkinds : ∀ kind ∈ literals, ∀ text, template? kind text = none ∧ stepKind? kind = none := by
    intro kind hkind text
    fin_cases hkind <;> exact ⟨rfl, rfl⟩
  obtain ⟨htemplate, hstep⟩ := hkinds c.kind (List.contains_iff_mem.1 h) c.text
  rw [write_eq]
  unfold writeVisit writeAccept
  rw [htemplate]
  dsimp only
  rw [hstep]
  dsimp only
  rw [if_pos h]
  rfl

theorem write_ident (h : c.kind = .ident) :
    write s c sheet = .ok { sheet with left := .atom (.text (s.rename c.text)) } := by
  rw [write_eq]
  unfold writeVisit writeAccept
  rw [h]
  rfl

variable {d : Cursor}

/-- A new right operand visits an only child. -/
theorem write_inside {t : Scope} {sheet sheet' inner : Sheet}
    (h : writeAccept write s c sheet = .ok (.inside sheet' t inner)) (hd : c.children = [d]) :
    write s c sheet = write t d inner >>= fun inner => .ok { sheet' with right := inner.doc } := by
  have hfold : [d].foldlM (fun inner child => write t child inner) inner = write t d inner := by
    rw [List.foldlM_cons]
    exact bind_pure _
  rw [write_eq]
  unfold writeVisit
  rw [h, hd]
  exact congrArg (fun x : Except Failure Sheet => x >>= fun inner =>
    Except.ok { sheet' with right := inner.doc }) hfold

theorem write_expr (h : c.kind = .expr) (hd : c.children = [d]) (sheet : Sheet) :
    write s c sheet = write s d {} >>= fun inner => .ok { sheet with right := inner.doc } := by
  refine write_inside ?_ hd
  unfold writeAccept
  rw [h]
  rfl

theorem write_parentheses (h : c.kind = .parenthesizedExpr) {parent : Kind}
    (hparent : c.parentKind? = some parent) (hshown : parenthesesLeftOut.contains parent = false)
    (hd : c.children = [d]) (sheet : Sheet) :
    write s c sheet = write s d { template := "(" ++ Slot.both ++ ")" } >>= fun inner =>
      .ok { sheet with right := inner.doc } := by
  refine write_inside ?_ hd
  unfold writeAccept writeParentheses
  rw [h, hparent]
  dsimp only
  rw [hshown]
  rfl

end

end Expression

end Transcriber
