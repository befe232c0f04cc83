import Transcriber.Proofs.Expression.Craft
import Transcriber.Proofs.Expression.Writing
import Transcriber.Proofs.Source.Every

/-!
# Visits do what they are known to do

In a calm workshop the visit of a node by an expression has the outcome that `Expression.write` says,
as long as no increment or decrement stands inside a larger expression.
-/

namespace Transcriber

open Build Source

/-- The blocks of a part of the store, and all that are newer than a workshop. -/
def Grown (P : Nat → Prop) (w : Workshop) (j : Nat) : Prop := P j ∨ w.blocks.size ≤ j

/-- What a visit leaves behind: nothing old is touched but the expression itself, and that says
something. -/
def Went (w : Workshop) (P : Nat → Prop) (id : Nat) (s : Scope) (_ : Unit) (w' : Workshop)
    (sheet : Sheet) : Prop :=
  Within (· = id) w w' ∧ Shows w' (Grown P w) id s sheet

/-- A node that is no increment or decrement inside a larger expression. -/
def Plain (head : Head) : Prop :=
  (Expression.stepKind? head.kind).isSome → head.nested = false

/-- A way to visit nodes has known outcomes. -/
def Performs (descend : Visit) (write : Writing) : Prop :=
  ∀ {id : Nat} {c : Cursor} {s : Scope} {sheet : Sheet} {w : Workshop} {P : Nat → Prop},
    c.EveryBelow Plain → Shows w P id s sheet →
    Yields (descend id c) w (write s c sheet) (Went w P id s)

variable {w w' : Workshop} {id : Nat} {s : Scope} {P : Nat → Prop}

/-- A new expression becomes an operand of the one it is in. -/
theorem Holds.hung {e : Expr} (h : Holds w id s e) (e' : Expr) (ht' : e'.tail = "") (f : Nat → Expr → Expr)
    (ht : (f w.blocks.size e).tail = "") :
    ∃ w₁ w', expr (some id) e' w = .ok w.blocks.size w₁ ∧ changeExpr id (f w.blocks.size) w₁ = .ok () w'
      ∧ Within (· = id) w w' ∧ w'.blocks.size = w.blocks.size + 1
      ∧ Holds w' id s (f w.blocks.size e) ∧ Holds w' w.blocks.size s e' := by
  have hid := h.lt_size
  obtain ⟨w₁, hmade, hwithin, hsize, he, hnew⟩ := h.made e' ht'
  obtain ⟨w', hchanged, hwithin', hsize', he'⟩ := he.changed (f w.blocks.size) ht
  exact ⟨w₁, w', hmade, hchanged, hwithin.again hwithin', hsize'.trans hsize, he', hnew.frame hwithin' (by omega)⟩

/-- An expression that has just been made says the texts of its operands. -/
theorem Holds.shows_texts {template left right : String}
    (h : Holds w id s { template, left := .text left, right := .text right }) (P : Nat → Prop)
    (hn : ¬ P id) : Shows w P id s ⟨template, .atom (.text left), .atom (.text right)⟩ :=
  h.shows hn (spells_text _) (spells_text _)

/-- A block, and the blocks that came between two workshops. -/
def Own (n : Nat) (w w' : Workshop) (j : Nat) : Prop :=
  j = n ∨ w.blocks.size ≤ j ∧ j < w'.blocks.size

theorem Own.le {n : Nat} {w0 : Workshop} {j : Nat} (h : Own n w w' j)
    (hn : w0.blocks.size ≤ n) (hw : w0.blocks.size ≤ w.blocks.size) : w0.blocks.size ≤ j := by
  rcases h with rfl | ⟨hle, -⟩
  · exact hn
  · omega

/-- An expression whose operands are new says what they say. -/
theorem Holds.shows_new {Q R : Nat → Prop} {e : Expr}
    {left right : Doc} (h : Holds w' id s e) (hapart : ¬ P id) (hid : id < w.blocks.size)
    (hleft : Spells w' Q e.left left) (hQ : ∀ j, Q j → w.blocks.size ≤ j)
    (hright : Spells w' R e.right right) (hR : ∀ j, R j → w.blocks.size ≤ j) :
    Shows w' (Grown P w) id s ⟨e.template, left, right⟩ := by
  refine h.shows ?_ (hleft.mono fun j hj => .inr (hQ j hj)) (hright.mono fun j hj => .inr (hR j hj))
  rintro (hP | hle)
  · exact hapart hP
  · omega

/-- What a visit leaves behind, seen from before another piece of work on the same expression. -/
theorem Went.after {w1 : Workshop} {u : Unit}
    {sheet : Sheet} (h : Went w1 P id s u w' sheet) (hwithin : Within (· = id) w w1)
    (hid : id < w.blocks.size) (hapart : ¬ P id) : Went w P id s u w' sheet := by
  have hsize := hwithin.size
  refine ⟨hwithin.again h.1, h.2.mono ?_ ?_⟩
  · rintro j (hP | hle)
    · exact .inl hP
    · exact .inr (by omega)
  · rintro (hP | hle)
    · exact hapart hP
    · omega

/-- Visit after visit by the same expression. -/
theorem Went.trans {w1 w2 : Workshop} {u u' : Unit} {sheet sheet' : Sheet} (h : Went w P id s u w1 sheet)
    (h' : Went w1 (Grown P w) id s u' w2 sheet') : Went w P id s () w2 sheet' := by
  have hsize := h.1.size
  refine ⟨h.1.again h'.1, h'.2.mono ?_ h.2.apart⟩
  rintro j ((hP | hle) | hle)
  · exact .inl hP
  · exact .inr hle
  · exact .inr (by omega)

namespace Shows

variable {sheet : Sheet}

theorem went (h : Shows w P id s sheet) {w' : Workshop} (hwithin : Within (· = id) w w')
    {sheet' : Sheet} (h' : Shows w' P id s sheet') (u : Unit) : Went w P id s u w' sheet' := by
  have hid := h.lt_size
  refine ⟨hwithin, h'.mono (fun j hj => .inl hj) ?_⟩
  rintro (hP | hle)
  · exact h.apart hP
  · omega

theorem setTemplate (h : Shows w P id s sheet) (template : String) :
    ∃ w', Build.setTemplate id template w = .ok () w' ∧ Within (· = id) w w'
      ∧ Shows w' P id s { sheet with template } := by
  obtain ⟨e, he, -, hleft, hright⟩ := h.holds
  obtain ⟨w', hrun, hwithin, -, he'⟩ := he.changed (fun e => { e with template }) he.tail
  have hP : ∀ j, P j → j < w.blocks.size → ¬ j = id := fun j hj _ heq => h.apart (heq ▸ hj)
  exact ⟨w', hrun, hwithin, h.apart, _, he', rfl, hwithin.spells hleft hP, hwithin.spells hright hP⟩

theorem setLeft (h : Shows w P id s sheet) {operand : Operand} {doc : Doc}
    (hdoc : ∀ w', Spells w' P operand doc) :
    ∃ w', Build.setLeft id operand w = .ok () w' ∧ Within (· = id) w w'
      ∧ Shows w' P id s { sheet with left := doc } := by
  obtain ⟨e, he, htemplate, -, hright⟩ := h.holds
  obtain ⟨w', hrun, hwithin, -, he'⟩ := he.changed (fun e => { e with left := operand }) he.tail
  have hP : ∀ j, P j → j < w.blocks.size → ¬ j = id := fun j hj _ heq => h.apart (heq ▸ hj)
  exact ⟨w', hrun, hwithin, h.apart, _, he', htemplate, hdoc w', hwithin.spells hright hP⟩

end Shows

/-- An expression has a new right operand, and says what it said before otherwise. -/
structure Opened (w : Workshop) (P : Nat → Prop) (id : Nat) (s : Scope) (sheet : Sheet) (n : Nat)
    (w' : Workshop) : Prop where
  old : id < w.blocks.size
  new : w.blocks.size ≤ n
  apart : ¬ P id
  within : Within (· = id) w w'
  holds : ∃ e, Holds w' id s e ∧ e.template = sheet.template
    ∧ Spells w' (fun j => P j ∧ j < w.blocks.size) e.left sheet.left ∧ e.right = .block n

namespace Opened

variable {w'' : Workshop} {Q : Nat → Prop} {n : Nat} {sheet : Sheet}

variable (h : Opened w P id s sheet n w')
include h

theorem frame {J : Nat → Prop} (hwithin : Within J w' w'')
    (hJ : ∀ j, J j → w.blocks.size ≤ j) : Opened w P id s sheet n w'' := by
  have hold := h.old
  obtain ⟨e, he, htemplate, hleft, hright⟩ := h.holds
  refine ⟨hold, h.new, h.apart, h.within.trans hwithin fun j hj => .inr (hJ j hj), e,
    he.frame hwithin fun hj => ?_, htemplate, hwithin.spells hleft fun j hj _ hJj => ?_, hright⟩
  · have := hJ _ hj
    omega
  · have := hJ _ hJj
    omega

theorem went {doc : Doc} (hdoc : Spells w' Q (.block n) doc)
    (hQ : ∀ j, Q j → w.blocks.size ≤ j) (u : Unit) :
    Went w P id s u w' { sheet with right := doc } := by
  have hold := h.old
  obtain ⟨e, he, htemplate, hleft, hright⟩ := h.holds
  refine ⟨h.within, ?_, e, he, htemplate, hleft.mono fun j hj => .inl hj.1, ?_⟩
  · rintro (hP | hle)
    · exact h.apart hP
    · omega
  · rw [hright]
    exact hdoc.mono fun j hj => .inr (hQ j hj)

/-- The new operand says something in the end. -/
theorem fill {t : Scope} {inner : Sheet} {u : Unit}
    (hwent : Went w' (fun _ => False) n t u w'' inner) :
    Went w P id s () w'' { sheet with right := inner.doc } := by
  have hsize := h.within.size
  refine (h.frame hwent.1 fun j hj => hj ▸ h.new).went
    (hwent.2.spells (Q := fun j => w.blocks.size ≤ j) ?_ h.new) (fun _ hj => hj) ()
  rintro j (hfalse | hle)
  · exact hfalse.elim
  · omega

end Opened

namespace Shows

variable {w1 : Workshop} {n : Nat} {sheet : Sheet}

/-- A block that has just been made becomes the right operand. -/
theorem setRight {e : Expr} (h : Shows w P id s sheet) (he : Holds w id s e)
    (hwithin : Within (· = id) w w1) (he1 : Holds w1 id s e) (hn : w.blocks.size ≤ n) :
    ∃ w', Build.setRight id (.block n) w1 = .ok () w' ∧ Within (· = id) w1 w'
      ∧ Opened w P id s sheet n w' := by
  have hid := h.lt_size
  obtain ⟨e', he', htemplate, hleft, -⟩ := h.holds
  obtain rfl := he.unique he'
  obtain ⟨w', hrun, hwithin', -, he'⟩ := he1.changed (fun e => { e with right := .block n }) he.tail
  have hP : ∀ k : Workshop, ∀ j, (P j ∧ j < w.blocks.size) → j < k.blocks.size → ¬ j = id :=
    fun _ j hj _ heq => h.apart (heq ▸ hj.1)
  exact ⟨w', hrun, hwithin', hid, hn, h.apart, hwithin.again hwithin', _, he', htemplate,
    hwithin'.spells (hwithin.spells hleft.bounded (hP w)) (hP w1), rfl⟩

theorem openRight (h : Shows w P id s sheet) (left : String) :
    ∃ n w', Build.openRight id (.text left) w = .ok n w' ∧ Opened w P id s sheet n w'
      ∧ Holds w' n s { left := .text left } := by
  have hid := h.lt_size
  obtain ⟨e, he, -⟩ := h.holds
  obtain ⟨w1, hrun1, hwithin1, hsize1, he1, hn1⟩ := he.made { left := .text left } rfl
  obtain ⟨w2, hrun2, hwithin2, hopened⟩ := h.setRight he hwithin1 he1 (Nat.le_refl _)
  refine ⟨w.blocks.size, w2, ?_, hopened, hn1.frame hwithin2 (by omega)⟩
  exact (bind_of_ok hrun1).trans (bind_of_ok hrun2)

theorem looseRight (h : Shows w P id s sheet) (e : Expr) (ht : e.tail = "") :
    ∃ n w1 w', looseExpr e w = .ok n w1 ∧ Build.setRight id (.block n) w1 = .ok () w'
      ∧ Opened w P id s sheet n w' ∧ Holds w' n .loose e := by
  have hid := h.lt_size
  obtain ⟨e0, he, -⟩ := h.holds
  obtain ⟨w1, hrun1, hwithin1, hsize1, hn1⟩ := h.calm.made e ht
  obtain ⟨w2, hrun2, hwithin2, hopened⟩ := h.setRight he
    (hwithin1.mono fun _ hj => hj.elim) (he.frame hwithin1 not_false) (Nat.le_refl _)
  exact ⟨w.blocks.size, w1, w2, hrun1, hrun2, hopened, hn1.frame hwithin2 (by omega)⟩

end Shows

namespace Expression

section

variable {descend : Visit} {write : Writing} (hd : Performs descend write) {c : Cursor} {sheet : Sheet}

theorem visitEach_nil (descend : Visit) (cs : List Cursor) : visitEach descend cs [] = pure () := by
  cases cs <;> rfl

theorem visitEach_cons (descend : Visit) (cs : List Cursor) (n : BlockId) (ids : List BlockId) :
    visitEach descend cs (n :: ids)
      = (visitMaybe descend n cs.head? >>= fun _ => visitEach descend cs.tail ids) := by
  cases cs with
  | nil => cases ids <;> rfl
  | cons c cs => rfl

include hd

theorem yields_visitMaybe {c : Option Cursor} (hc : ∀ d, c = some d → d.EveryBelow Plain)
    (h : Shows w P id s sheet) :
    Yields (visitMaybe descend id c) w (writeMaybe write s c sheet) (Went w P id s) := by
  cases c with
  | some c => exact hd (hc c rfl) h
  | none =>
    refine yields_pure ⟨.refl _ w, h.mono (fun j hj => .inl hj) ?_⟩
    rintro (hP | hle)
    · exact h.apart hP
    · have := h.lt_size
      omega

omit hd in
theorem below_getElem? {position : Nat} (hc : c.EveryBelow Plain) :
    ∀ d, c.children[position]? = some d → d.EveryBelow Plain :=
  fun _ h => hc.get? h

variable {n : Nat} {t : Scope} {e : Expr}

theorem yields_child {template left right : String} {c : Option Cursor}
    (hc : ∀ d, c = some d → d.EveryBelow Plain)
    (h : Holds w n t { template, left := .text left, right := .text right }) :
    Yields (visitMaybe descend n c) w
      (writeMaybe write t c ⟨template, .atom (.text left), .atom (.text right)⟩)
      fun _ w' sheet => Within (· = n) w w' ∧ Spells w' (Own n w w') (.block n) sheet.doc := by
  refine (yields_visitMaybe hd hc (h.shows_texts (fun _ => False) not_false)).imp ?_
  rintro _ w' sheet ⟨hwithin, hshows⟩
  refine ⟨hwithin, ?_⟩
  have hspells : Spells w' (fun j => j = n ∨ w.blocks.size ≤ j) (.block n) sheet.doc :=
    hshows.spells (fun j hj => .inr (hj.resolve_left not_false)) (.inl rfl)
  refine hspells.bounded.mono ?_
  rintro j ⟨rfl | hle, hlt⟩
  · exact .inl rfl
  · exact .inr ⟨hle, hlt⟩

theorem yields_visitEach_two {m : Nat} {u : Scope} (hc : c.EveryBelow Plain)
    (hn : Holds w n t {}) (hm : Holds w m u {}) (hnm : n ≠ m) :
    Yields (visitEach descend c.children [n, m]) w (writeBoth write t u c)
      fun _ w' sheets => Within (fun j => j = n ∨ j = m) w w' ∧ Spells w' (Own n w w') (.block n) sheets.1.doc
        ∧ Spells w' (Own m w w') (.block m) sheets.2.doc := by
  rw [visitEach_cons, visitEach_cons, visitEach_nil, List.head?_eq_getElem?,
    List.head?_eq_getElem?, List.getElem?_tail]
  refine (yields_child hd (below_getElem? hc) hn).bind fun _ w1 l ⟨hwithin1, hl⟩ => ?_
  have hm1 := hm.frame hwithin1 hnm.symm
  refine (yields_child hd (below_getElem? hc) hm1).bind fun _ w2 r ⟨hwithin2, hr⟩ => ?_
  have hmlt := hm.lt_size
  have hsize1 := hwithin1.size
  have hsize2 := hwithin2.size
  refine yields_pure ⟨?_, ?_, ?_⟩
  · exact (hwithin1.mono fun _ hj => .inl hj).trans hwithin2 fun _ hj => .inl (.inr hj)
  · -- The first operand stays while the second one visits its child.
    refine (hwithin2.spells hl ?_).mono ?_
    · rintro j (rfl | ⟨hle, -⟩) -
      · exact hnm
      · omega
    · rintro j (rfl | ⟨hle, hlt⟩)
      · exact .inl rfl
      · exact .inr ⟨hle, by omega⟩
  · refine hr.mono ?_
    rintro j (rfl | ⟨hle, hlt⟩)
    · exact .inl rfl
    · exact .inr ⟨by omega, hlt⟩

/-- An expression gets two new operands, which visit the first two children. -/
theorem yields_fill {w0 : Workshop} {m : Nat} {u : Scope} (hc : c.EveryBelow Plain)
    (hwithin : Within (· = id) w0 w) (hid : id < w0.blocks.size) (hn : w0.blocks.size ≤ n)
    (hm : w0.blocks.size ≤ m) (hnm : n ≠ m) (hapart : ¬ P id)
    (he : Holds w id s e) (htemplate : e.template = sheet.template)
    (hleft : Holds w n t {}) (hright : Holds w m u {}) :
    Yields (do
        setLeft id (.block n)
        setRight id (.block m)
        visitEach descend c.children [n, m]) w
      (writeOperands write t u c sheet) (Went w0 P id s) := by
  obtain ⟨w1, hrun1, hwithin1, hsize1, he1⟩ := he.changed (fun e => { e with left := .block n }) he.tail
  obtain ⟨w2, hrun2, hwithin2, hsize2, he2⟩ := he1.changed (fun e => { e with right := .block m }) he.tail
  have hleft2 := (hleft.frame hwithin1 (by omega)).frame hwithin2 (by omega)
  have hright2 := (hright.frame hwithin1 (by omega)).frame hwithin2 (by omega)
  refine .after hrun1 (.after hrun2 ?_)
  refine (yields_visitEach_two hd hc hleft2 hright2 hnm).map ?_
  rintro _ w3 ⟨l, r⟩ ⟨hwithin3, hl, hr⟩
  have hbefore := (hwithin.again hwithin1).again hwithin2
  refine ⟨hbefore.trans hwithin3 ?_, ?_⟩
  · rintro j (rfl | rfl)
    · exact .inr hn
    · exact .inr hm
  · have he3 := he2.frame hwithin3 (by omega)
    rw [← htemplate]
    exact he3.shows_new hapart hid hl (fun j hj => hj.le hn hbefore.size) hr fun j hj => hj.le hm hbefore.size

theorem yields_operands (hc : c.EveryBelow Plain) (h : Shows w P id s sheet) :
    Yields (operands descend id c) w (writeOperands write s s c sheet) (Went w P id s) := by
  obtain ⟨e, he, htemplate, -, -⟩ := h.holds
  have hid := he.lt_size
  obtain ⟨w1, hrun1, hwithin1, hsize1, he1, hn1⟩ := he.made {} rfl
  obtain ⟨w2, hrun2, hwithin2, hsize2, he2, hm2⟩ := he1.made {} rfl
  refine .after hrun1 (.after hrun2 ?_)
  exact yields_fill hd hc (hwithin1.again hwithin2) hid (Nat.le_refl _) (by omega) (by omega)
    h.apart he2 htemplate (hn1.frame hwithin2 (by omega)) hm2

theorem yields_looseOperands (hc : c.EveryBelow Plain) (h : Shows w P id s sheet) :
    Yields (looseOperands descend id c) w (writeOperands write s .loose c sheet) (Went w P id s) := by
  obtain ⟨e, he, htemplate, -, -⟩ := h.holds
  have hid := he.lt_size
  obtain ⟨w1, hrun1, hwithin1, hsize1, he1, hn1⟩ := he.made {} rfl
  obtain ⟨w2, hrun2, hwithin2, hsize2, hm2⟩ := he1.calm.made {} rfl
  refine .after hrun1 (.after hrun2 ?_)
  exact yields_fill hd hc (hwithin1.idle hwithin2) hid (Nat.le_refl _) (by omega) (by omega)
    h.apart (he1.frame hwithin2 not_false) htemplate (hn1.frame hwithin2 not_false) hm2

/-- Nodes hang on an expression one behind the other, each on an expression that is made without harm to the one at
`id`. -/
theorem yields_chain {make : Expr → Build Nat} {chain : Nat → List Cursor → Build Unit} {slot : String}
    (hmake : ∀ {w : Workshop}, Holds w id s e → ∀ e' : Expr, e'.tail = "" →
      ∃ w', make e' w = .ok w.blocks.size w' ∧ Within (· = id) w w' ∧ w'.blocks.size = w.blocks.size + 1
        ∧ Holds w' id s e ∧ Holds w' w.blocks.size t e')
    (hnil : ∀ n, chain n [] = pure ()) (hcons : ∀ n c cs, chain n (c :: cs) = do
      let item ← make { template := slot ++ (if cs.isEmpty then "" else ", ") }
      setLeft n (.block item)
      descend item c
      let next ← make {}
      setRight n (.block next)
      chain next cs)
    {at_ : Nat} {template : String} {cs : List Cursor} (hcs : ∀ d ∈ cs, d.EveryBelow Plain) (he : Holds w id s e)
    (hat : Holds w at_ t { template }) (hne : at_ ≠ id) :
    Yields (chain at_ cs) w (writeRow write slot t template cs) fun _ w' sheet =>
      Within (fun j => j = id ∨ j = at_) w w' ∧ Holds w' id s e
        ∧ Spells w' (Own at_ w w') (.block at_) sheet.doc := by
  induction cs generalizing w at_ template with
  | nil =>
    rw [hnil]
    refine yields_pure ⟨.refl _ w, he, ?_⟩
    exact (hat.shows_texts (fun _ => False) not_false).spells (fun j hj => hj.elim) (.inl rfl)
  | cons c cs ih =>
    rw [hcons]
    have hid := he.lt_size
    have hatlt := hat.lt_size
    obtain ⟨w1, hrun1, hwithin1, hsize1, he1, hn1⟩ :=
      hmake he { template := slot ++ (if cs.isEmpty then "" else ", ") } rfl
    have hat1 := hat.frame hwithin1 hne
    obtain ⟨w2, hrun2, hwithin2, hsize2, hat2⟩ :=
      hat1.changed (fun e => { e with left := .block w.blocks.size }) rfl
    have he2 := he1.frame hwithin2 hne.symm
    have hn2 := hn1.frame hwithin2 (by omega)
    refine .after hrun1 (.after hrun2 ?_)
    refine (yields_child hd (c := some c) (by
      rintro d ⟨⟩
      exact hcs c (.head _)) hn2).bind fun _ w3 item ⟨hwithin3, hn3⟩ => ?_
    have hsize3 := hwithin3.size
    have he3 := he2.frame hwithin3 (by omega)
    have hat3 := hat2.frame hwithin3 (by omega)
    obtain ⟨w4, hrun4, hwithin4, hsize4, he4, hm4⟩ := hmake he3 {} rfl
    have hat4 := hat3.frame hwithin4 hne
    obtain ⟨w5, hrun5, hwithin5, hsize5, hat5⟩ :=
      hat4.changed (fun e => { e with right := .block w3.blocks.size }) rfl
    have he5 := he4.frame hwithin5 hne.symm
    have hm5 := hm4.frame hwithin5 (by omega)
    refine .after hrun4 (.after hrun5 ?_)
    refine (ih (fun d hd' => hcs d (.tail _ hd')) he5 hm5 (by omega)).map ?_
    rintro _ w6 next ⟨hwithin6, he6, hm6⟩
    have hsize6 := hwithin6.size
    have hleft : Spells w6 (Own w.blocks.size w2 w3) (.block w.blocks.size) item.doc := by
      refine hwithin6.spells (hwithin5.spells (hwithin4.spells hn3 ?_) ?_) ?_
      all_goals
        rintro j (rfl | ⟨hle, hlt⟩) -
        · omega
        · omega
    refine ⟨?_, he6, ?_⟩
    · refine (((((hwithin1.mono fun _ hj => .inl hj).trans hwithin2 ?_).trans hwithin3 ?_).trans
        hwithin4 ?_).trans hwithin5 ?_).trans hwithin6 ?_
      all_goals
        intro j hj
        omega
    · have hat6 := hat5.frame hwithin6 (by omega)
      refine (hat6.shows (P := fun j => w.blocks.size ≤ j ∧ j < w6.blocks.size) (by omega)
        (hleft.mono ?_) (hm6.mono ?_)).spells (fun j hj => .inr hj) (.inl rfl)
      all_goals
        rintro j (rfl | ⟨hle, hlt⟩)
        · exact ⟨by omega, by omega⟩
        · exact ⟨by omega, by omega⟩

theorem yields_row (slot : String) {at_ : Nat} {template : String} {cs : List Cursor}
    (hcs : ∀ d ∈ cs, d.EveryBelow Plain) (he : Holds w id s e) (hat : Holds w at_ s { template })
    (hne : at_ ≠ id) :
    Yields (row descend slot id at_ cs) w (writeRow write slot s template cs) fun _ w' sheet =>
      Within (fun j => j = id ∨ j = at_) w w' ∧ Holds w' id s e
        ∧ Spells w' (Own at_ w w') (.block at_) sheet.doc :=
  yields_chain hd Holds.made (fun _ => rfl) (fun _ _ _ => rfl) hcs he hat hne

theorem yields_call (hc : c.EveryBelow Plain) (h : Shows w P id s sheet) :
    Yields (call descend id c) w (writeCall write s c) (Went w P id s) := by
  obtain ⟨e, he, -, -, -⟩ := h.holds
  have hid := he.lt_size
  obtain ⟨w1, hrun1, hwithin1, hsize1, he1⟩ :=
    he.changed (fun e => { e with template := Slot.left ++ "(" ++ Slot.right ++ ")" }) he.tail
  obtain ⟨w2, w3, hrun2, hrun3, hwithin3, hsize3, he3, hn3⟩ :=
    he1.hung {} rfl (fun n e => { e with left := .block n }) he.tail
  refine .after hrun1 (.after hrun2 (.after hrun3 ?_))
  refine (yields_child hd (fun d hd' => hc.head? hd') hn3).bind fun _ w4 callee ⟨hwithin4, hcallee⟩ => ?_
  have hsize4 := hwithin4.size
  have he4 := he3.frame hwithin4 (by omega)
  cases hlist : c.child? .argumentList with
  | none => exact ⟨w4, rfl⟩
  | some list =>
    refine .after (show demand (some list) w4 = .ok list w4 from rfl) ?_
    obtain ⟨w5, w6, hrun5, hrun6, hwithin6, hsize6, he6, hm6⟩ :=
      he4.hung {} rfl (fun n e => { e with right := .block n }) he.tail
    refine .after hrun5 (.after hrun6 ?_)
    refine (yields_row hd Slot.right (fun d hd' => (hc.child? hlist).child hd') he6 hm6 (by omega)).map ?_
    rintro _ w7 arguments ⟨hwithin7, he7, hright⟩
    have hleft : Spells w7 (Own w1.blocks.size w3 w4) (.block w1.blocks.size) callee.doc := by
      refine hwithin7.spells (hwithin6.spells hcallee ?_) ?_
      all_goals
        rintro j (rfl | ⟨hle, hlt⟩) -
        · omega
        · omega
    refine ⟨?_, ?_⟩
    · refine (((hwithin1.again hwithin3).trans hwithin4 ?_).again hwithin6).trans hwithin7 ?_
      all_goals
        intro j hj
        omega
    · exact he7.shows_new h.apart hid hleft (fun j hj => hj.le (by omega) (by omega)) hright
        fun j hj => hj.le (by omega) (by omega)

theorem yields_choice (hc : c.EveryBelow Plain) (h : Shows w P id s sheet) :
    Yields (choice descend id c) w (writeChoice write s c) (Went w P id s) := by
  obtain ⟨e, he, -, -, -⟩ := h.holds
  have hid := he.lt_size
  obtain ⟨w1, hrun1, hwithin1, hsize1, he1⟩ :=
    he.changed (fun e => { e with template := Slot.left ++ " if " ++ Slot.right }) he.tail
  obtain ⟨w2, w3, hrun2, hrun3, hwithin3, hsize3, he3, hleft3⟩ :=
    he1.hung {} rfl (fun n e => { e with left := .block n }) he.tail
  obtain ⟨w4, w5, hrun4, hrun5, hwithin5, hsize5, he5, hright5⟩ :=
    he3.hung { template := Slot.left ++ " else " ++ Slot.right } rfl (fun n e => { e with right := .block n }) he.tail
  -- The condition and the other value hang on the right operand.
  obtain ⟨w6, w7, hrun6, hrun7, hwithin7, hsize7, hright7, hcondition7⟩ :=
    hright5.hung {} rfl (fun n e => { e with left := .block n }) rfl
  obtain ⟨w8, w9, hrun8, hrun9, hwithin9, hsize9, hright9, hother9⟩ :=
    hright7.hung {} rfl (fun n e => { e with right := .block n }) rfl
  have hcondition9 := hcondition7.frame hwithin9 (by omega)
  have hinner : Within (· = w3.blocks.size) w5 w9 := hwithin7.again hwithin9
  have hleft9 := (hleft3.frame hwithin5 (by omega)).frame hinner (by omega)
  have he9 := he5.frame hinner (by omega)
  have houter : Within (· = id) w w9 := ((hwithin1.again hwithin3).again hwithin5).beyond hinner (by omega)
  refine .after hrun1 (.after hrun2 (.after hrun3 (.after hrun4 (.after hrun5 (.after hrun6
    (.after hrun7 (.after hrun8 (.after hrun9 ?_))))))))
  rw [visitEach_cons, visitEach_cons, visitEach_cons, visitEach_nil, List.head?_eq_getElem?,
    List.head?_eq_getElem?, List.head?_eq_getElem?, List.getElem?_tail, List.getElem?_tail,
    List.getElem?_tail]
  refine (yields_child hd (below_getElem? hc) hcondition9).bind
    fun _ w10 condition ⟨hwithin10, hcondition⟩ => ?_
  have hsize10 := hwithin10.size
  refine (yields_child hd (below_getElem? hc) (hleft9.frame hwithin10 (by omega))).bind
    fun _ w11 left ⟨hwithin11, hleft⟩ => ?_
  have hsize11 := hwithin11.size
  have hother11 := (hother9.frame hwithin10 (by omega)).frame hwithin11 (by omega)
  refine (yields_child hd (below_getElem? hc) hother11).bind fun _ w12 other ⟨hwithin12, hother⟩ => ?_
  have he12 := ((he9.frame hwithin10 (by omega)).frame hwithin11 (by omega)).frame hwithin12 (by omega)
  have hright12 := ((hright9.frame hwithin10 (by omega)).frame hwithin11 (by omega)).frame
    hwithin12 (by omega)
  have hcondition12 := hwithin12.spells (hwithin11.spells hcondition ?_) ?_
  have hleft12 := hwithin12.spells hleft ?_
  · have hright := (hright12.shows (P := fun j => w.blocks.size ≤ j ∧ j ≠ w3.blocks.size)
      (by omega) (hcondition12.mono ?_) (hother.mono ?_)).spells
      (Q := fun j => w.blocks.size ≤ j) (fun j hj => hj.1) (by omega)
    · refine yields_pure ⟨?_, ?_⟩
      · exact ((houter.beyond hwithin10 (by omega)).beyond hwithin11 (by omega)).beyond hwithin12 (by omega)
      · exact he12.shows_new h.apart hid hleft12 (fun j hj => hj.le (by omega) (by omega)) hright
          fun j hj => hj
    all_goals
      rintro j (rfl | ⟨hle, hlt⟩)
      · exact ⟨by omega, by omega⟩
      · exact ⟨by omega, by omega⟩
  all_goals
    rintro j (rfl | ⟨hle, hlt⟩) -
    · omega
    · omega

omit hd in
/-- The standard settings drop a cast to a type without a constructor of its own. -/
theorem setting_cast (h : Holds w id s e) :
    setting id "Cast" "Handler" .none w = .ok (.handler .dropCast) w := by
  obtain ⟨b, hb, hform⟩ := h.form
  unfold setting
  rw [bind_of_ok (get_apply w), bind_of_ok (settingName_apply hb _ _), h.calm.config, hform]
  rfl

omit hd in
/-- The handler for casts makes the expression say its right operand. -/
theorem callSetting_dropCast {w1 : Workshop} (text : String) (h : setTemplate id Slot.right w = .ok () w1) :
    callSetting (.handler .dropCast) [.block id, .node text] w = .ok .none w1 := by
  cases h
  rfl

theorem yields_castTo (hc : c.EveryBelow Plain) (h : Shows w P id s sheet) (name : String) :
    Yields (castTo descend id c name) w (writeOperands write s s c { sheet with
        template := if constructorTypes.contains name then name ++ "(" ++ Slot.right ++ ")"
          else Slot.right })
      (Went w P id s) := by
  have hset : ∀ template, ∃ w1, setTemplate id template w = .ok () w1
      ∧ Yields (operands descend id c) w1 (writeOperands write s s c { sheet with template })
        (Went w P id s) := by
    intro template
    obtain ⟨w1, hrun1, hwithin1, h1⟩ := h.setTemplate template
    refine ⟨w1, hrun1, (yields_operands hd hc h1).imp ?_⟩
    exact fun _ _ _ hwent => hwent.after hwithin1 h.lt_size h.apart
  unfold castTo
  split
  · obtain ⟨w1, hrun1, h1⟩ := hset (name ++ "(" ++ Slot.right ++ ")")
    exact .after hrun1 h1
  · obtain ⟨w1, hrun1, h1⟩ := hset Slot.right
    obtain ⟨e, he, -⟩ := h.holds
    refine .after (setting_cast he) ?_
    exact .after (callSetting_dropCast c.text hrun1) h1

theorem yields_cast (hc : c.EveryBelow Plain) (h : Shows w P id s sheet) :
    Yields (cast descend id c) w (writeCast write s c sheet) (Went w P id s) := by
  have hto := yields_castTo hd hc h
  unfold cast writeCast castType
  cases htype : c.child? .typeRef with
  | none => exact ⟨w, rfl⟩
  | some type =>
    refine .after (show demand (some type) w = .ok type w from rfl) ?_
    cases hnamed : type.children.head? with
    | none =>
      rw [Option.bind_some, hnamed]
      exact ⟨w, rfl⟩
    | some named =>
      refine .after (show demand (some named) w = .ok named w from rfl) ?_
      rw [Option.bind_some, hnamed]
      dsimp only
      split
      · cases hfirst : named.children.head? with
        | none => exact ⟨w, rfl⟩
        | some first => exact .after (show textOf (some first) w = .ok first.text w from rfl) (hto _)
      · exact .after (show (pure named.text : Build String) w = .ok named.text w from rfl) (hto _)

end

/-- What accepting a node leaves behind. -/
def Accepted (w : Workshop) (P : Nat → Prop) (id : Nat) (s : Scope) (visitor : Option BlockId)
    (w' : Workshop) : Next → Prop
  | .done sheet => visitor = none ∧ Went w P id s () w' sheet
  | .here sheet => visitor = some id ∧ Went w P id s () w' sheet
  | .inside sheet t inner => ∃ n, visitor = some n ∧ Opened w P id s sheet n w'
      ∧ Shows w' (fun _ => False) n t inner

section

variable {c : Cursor} {sheet : Sheet}

theorem yields_done {w1 : Workshop} {m : Build Unit} {x : Except Failure Sheet}
    (h : Yields m w1 x (Went w P id s)) :
    Yields (do m; return none) w1 (do return .done (← x)) (Accepted w P id s) := by
  refine h.bind fun _ w' sheet hwent => ?_
  exact yields_pure ⟨rfl, hwent⟩

theorem yields_left (h : Shows w P id s sheet) (text : String) :
    Yields (do setLeft id (.text text); return none) w
      (.ok (.done { sheet with left := .atom (.text text) })) (Accepted w P id s) := by
  obtain ⟨w', hrun, hwithin, h'⟩ := h.setLeft fun w' => spells_text text
  exact .after hrun (yields_pure ⟨rfl, h.went hwithin h' ()⟩)

theorem yields_word (h : Shows w P id s sheet) (text : String) : Yields (word id text) w
      (.ok (.done { sheet with right := Sheet.doc { left := .atom (.text text) } }))
      (Accepted w P id s) := by
  obtain ⟨n, w', hrun, hopened, hn⟩ := h.openRight text
  have hspells := (hn.shows_texts (fun _ => False) not_false).spells
    (Q := fun j => w.blocks.size ≤ j) (fun j hj => hj.elim) hopened.new
  exact .after hrun (yields_pure ⟨rfl, hopened.went hspells (fun j hj => hj) ()⟩)

theorem yields_unhandled (h : Shows w P id s sheet) : Yields (unhandled id c) w (match c.kind.name? with
        | none => .error .absent
        | some _ => .ok (.here sheet))
      (Accepted w P id s) := by
  unfold unhandled
  cases hname : c.kind.name? with
  | none => exact ⟨w, rfl⟩
  | some name =>
    refine .after (show demand (some name) w = .ok name w from rfl) ?_
    obtain ⟨w', hrun, hwithin, -⟩ := within_report w .debug ("no visitor accept method for " ++ name)
    refine .after hrun (yields_pure ⟨rfl, h.went (hwithin.mono fun _ hj => hj.elim) ?_ ()⟩)
    exact h.frame hwithin not_false fun _ _ _ => not_false

end

end Expression

end Transcriber
