import Transcriber.Proofs.Hoist.Inside
import Transcriber.Proofs.Statement.Fills

/-!
# Formulas on their way

An expression of a statement visits the tree of a formula.  Afterwards it says what is left of the
formula, and the lines for its steps stand before the statement, in the order in which the steps are
evaluated.

* `StandsFor.raises` — the walk over the tree of a formula.
-/

namespace Transcriber

open Build Source Expression List

/-! ## Trees of formulas -/

/-- A tree stands for a formula.  Steps are flagged as standing inside a larger expression. -/
inductive StandsFor : Tree → Formula → Prop
  | number {head : Head} (hkind : head.kind = .decimalLiteral) :
      StandsFor (.node head []) (.number head.text)
  | name {head : Head} (hkind : head.kind = .ident) : StandsFor (.node head []) (.name head.text)
  | step {head inner : Head} (before up : Bool)
      (hkind : stepKind? head.kind = some (if up then " += 1" else " -= 1", before))
      (hnested : head.nested = true) (hinner : inner.kind = .ident) :
      StandsFor (.node head [.node inner []]) (.step inner.text before up)
  | binary (op : Arithmetic) {head : Head} {l r : Tree} {f g : Formula}
      (hkind : head.kind = op.toBinary.kind) (hl : StandsFor l f) (hr : StandsFor r g) :
      StandsFor (.node head [l, r]) (.binary op f g)
  | parenthesized {head inner : Head} {t : Tree} {f : Formula}
      (hkind : head.kind = .parenthesizedExpr) (hinner : inner.kind = .expr) (h : StandsFor t f) :
      StandsFor (.node head [.node inner [t]]) (.parenthesized f)

/-! ## Work that raises lines -/

/-- Work of an expression has known effects: what the expression says in the end, and which lines are
put before its statement.  Both depend on how many names have been made up before. -/
def Raises (e : Expr) (work : BlockId → Build Unit) (home : Nat) (s : Scope)
    (deeds : Nat → List Deed) (text : Nat → String) (count : Nat → Nat) : Prop :=
  ∀ ⦃w : Workshop⦄ ⦃id : Nat⦄, Inside w id home s e → w.childrenOf home ≠ [] → ∃ w', work id w = .ok () w'
      ∧ Raised w id home s w' (deeds w.madeUp) (text w.madeUp) (count w.madeUp)

namespace Raised

variable {w w1 w2 w3 w' : Workshop} {id home n m : Nat} {s : Scope} {deeds deeds' : List Deed}
  {text text' whole template : String} {count count' : Nat}

/-- There is still a line behind those that have been put there. -/
theorem ne_nil (h : Raised w id home s w' deeds text count) (hne : w.childrenOf home ≠ []) :
    w'.childrenOf home ≠ [] := by
  obtain ⟨ids, hids, -⟩ := h.laid _ _ (dropLast_append_getLast hne).symm
  rw [hids]
  exact append_ne_nil_of_right_ne_nil _ (cons_ne_nil _ _)

/-- A move among the tokens changes nothing. -/
theorem moved (h : Raised w id home s w1 deeds text count) (hw : Moved w1 w')
    (hhome : home < w.blocks.size) : Raised w id home s w' deeds text count := by
  obtain ⟨sheet, hshows, htext⟩ := h.shows
  refine ⟨h.within.idle hw.within, ⟨sheet, hshows.frame hw.within not_false fun _ _ _ => not_false,
    htext⟩, fun front last hchildren => ?_, hw.madeUp_eq.trans h.count⟩
  obtain ⟨ids, hids, hlaid⟩ := h.laid front last hchildren
  refine ⟨ids, ?_, hlaid.frame hw.within.around fun _ _ _ => not_false⟩
  rw [hw.within.childrenOf (Nat.lt_of_lt_of_le hhome h.within.size) not_false]
  exact hids

/-- Work that touches no block may come first. -/
theorem after (hw : Within (fun _ => False) w w1) (hsize : w1.blocks.size = w.blocks.size)
    (h : Raised w1 id home s w' deeds text count) (hhome : home < w.blocks.size) :
    Raised w id home s w' deeds text count := by
  refine ⟨(hw.mono fun _ hj => hj.elim).trans h.within fun _ hj => .inl hj, hsize ▸ h.shows,
    fun front last hchildren => hsize ▸ h.laid front last ?_, h.count⟩
  rw [hw.childrenOf hhome not_false]
  exact hchildren

/-- A line that was put there before comes first. -/
theorem behind {front : List Nat} {last k : Nat} {d : Deed} (hwithin : Within (· = home) w w1)
    (hchildren : w.childrenOf home = front ++ [last])
    (hchildren1 : w1.childrenOf home = front ++ [k] ++ [last])
    (hlaid : Laid w1 w.blocks.size [k] [(0, d.text)]) (hid : id < w.blocks.size)
    (hhome : home < w.blocks.size) (h : Raised w1 id home s w' deeds text count) :
    Raised w id home s w' (d :: deeds) text count := by
  have hsize := hwithin.size
  obtain ⟨sheet, hshows, htext⟩ := h.shows
  refine ⟨(hwithin.mono fun _ hj => .inr hj).trans h.within fun _ hj => .inl hj,
    ⟨sheet, hshows.mono (fun j hj => Nat.le_trans hsize hj) (by omega), htext⟩,
    fun front' last' hchildren' => ?_, h.count⟩
  obtain ⟨rfl, rfl⟩ := append_singleton_inj.1 (hchildren'.symm.trans hchildren)
  obtain ⟨ids, hids, hlaid'⟩ := h.laid _ _ hchildren1
  refine ⟨k :: ids, ?_, ?_⟩
  · rw [hids, append_assoc front', singleton_append]
  · refine (hlaid.frame h.within.around ?_).append (hlaid'.mono hsize)
    rintro j hle - (rfl | rfl) <;> omega

/-- An expression says what its right operand says. -/
theorem opened (h : Raised w1 n home s w2 deeds text count) (hwithin : Within (· = id) w w1)
    (hself : Inside w1 id home s { template, right := .block n }) (hid : id < w.blocks.size)
    (hn : w.blocks.size ≤ n) (hhome : home < w.blocks.size)
    (hwhole : Slot.filled? template "" text = some whole) :
    Raised w id home s w2 deeds whole count := by
  have hsize := hwithin.size
  obtain ⟨sheet, hshows, htext⟩ := h.shows
  refine ⟨?_, ?_, fun front last hchildren => ?_, h.count⟩
  · refine (hwithin.mono fun _ hj => .inl hj).trans h.within ?_
    rintro j (rfl | rfl)
    · exact .inr hn
    · exact .inl (.inr rfl)
  · have hself2 := (hself.frame h.within fun hj => hj.elim (by omega) hself.ne).holds
    refine ⟨_, hself2.shows (by omega) (spells_text "")
      (hshows.spells (Q := fun j => w.blocks.size ≤ j) (fun j hj => Nat.le_trans hsize hj) hn), ?_⟩
    exact (Doc.text_node rfl htext).trans hwhole
  · obtain ⟨ids, hids, hlaid⟩ := h.laid front last (by
      rw [hwithin.childrenOf hhome hself.ne.symm]
      exact hchildren)
    exact ⟨ids, hids, hlaid.mono hsize⟩

/-- An expression says what its two operands say, and the lines of the left one come first. -/
theorem both (hl : Raised w1 n home s w2 deeds text count)
    (hr : Raised w2 m home s w3 deeds' text' count') (hwithin : Within (· = id) w w1)
    (hself : Inside w1 id home s { template, left := .block n, right := .block m })
    (hid : id < w.blocks.size) (hn : w.blocks.size ≤ n) (hm : w.blocks.size ≤ m) (hnm : n ≠ m)
    (hn1 : n < w1.blocks.size) (hm1 : m < w1.blocks.size) (hhome : home < w.blocks.size)
    (hwhole : Slot.filled? template text text' = some whole) :
    Raised w id home s w3 (deeds ++ deeds') whole count' := by
  have hsize1 := hwithin.size
  have hsize2 := hl.within.size
  obtain ⟨left, hleft, htext⟩ := hl.shows
  obtain ⟨right, hright, htext'⟩ := hr.shows
  refine ⟨?_, ?_, fun front last hchildren => ?_, hr.count⟩
  · refine ((hwithin.mono fun _ hj => .inl hj).trans hl.within ?_).trans hr.within ?_
    all_goals
      rintro j (rfl | rfl)
      · exact .inr (by omega)
      · exact .inl (.inr rfl)
  · have hself3 := ((hself.frame hl.within fun hj => hj.elim (by omega) hself.ne).frame hr.within
      fun hj => hj.elim (by omega) hself.ne).holds
    -- The left operand stays while the right one visits its child.
    have hspells : Spells w3 (fun j => j = n ∨ w1.blocks.size ≤ j) (.block n) left.doc := by
      refine hr.within.spells (hleft.spells (fun j hj => .inr hj) (.inl rfl)) ?_
      rintro j (rfl | hle) - (rfl | rfl) <;> omega
    refine ⟨_, hself3.shows (by omega) (hspells.mono ?_)
      (hright.spells (Q := fun j => w.blocks.size ≤ j) (fun j hj => by omega) hm), ?_⟩
    · rintro j (rfl | hle) <;> omega
    · exact (Doc.text_node htext htext').trans hwhole
  · obtain ⟨ids, hids, hlaid⟩ := hl.laid front last (by
      rw [hwithin.childrenOf hhome hself.ne.symm]
      exact hchildren)
    obtain ⟨ids', hids', hlaid'⟩ := hr.laid _ last hids
    refine ⟨ids ++ ids', ?_, ?_⟩
    · rw [hids', append_assoc front]
    · rw [map_append, flush, map_append]
      refine ((hlaid.frame hr.within.around ?_).mono hsize1).append (hlaid'.mono (by omega))
      rintro j hle - (rfl | rfl) <;> omega

end Raised

section

variable {descend : Visit} {c d l r : Cursor} {home : Nat} {s : Scope} {e : Expr}
  {deeds deeds' : Nat → List Deed} {text text' : Nat → String} {count count' : Nat → Nat}

theorem Raises.congr {work : BlockId → Build Unit} (h : Raises e work home s deeds text count)
    (htext : ∀ n, text n = text' n) : Raises e work home s deeds text' count := by
  rwa [← show text = text' from funext htext]

theorem raises_visit {accept : Accept}
    (h : Raises e (fun id => accept id c >>= goOn descend id c) home s deeds text count) :
    Raises e (fun id => visit accept descend id c) home s deeds text count := by
  intro w id hid hne
  have hhome := hid.inMethod.lt_size
  obtain ⟨w1, hrun1, hmoved1⟩ := hid.holds.calm.takeComments_moved id id c.head.start
  have hid1 := hid.frame hmoved1.within not_false
  obtain ⟨w2, hrun2, hraised⟩ := h hid1 (by
    rw [hmoved1.within.childrenOf hhome not_false]
    exact hne)
  rw [hmoved1.madeUp_eq] at hraised
  obtain ⟨w3, hrun3, hmoved3⟩ := (hraised.within.calm hid1.holds.calm).finish_moved c
    (Nat.lt_of_lt_of_le hid1.holds.lt_size hraised.within.size)
  refine ⟨w3, ?_, .after hmoved1.within hmoved1.size_eq
    (hraised.moved hmoved3 (hmoved1.size_eq ▸ hhome)) hhome⟩
  dsimp only
  rw [visit_eq, bind_of_ok hrun1, ← bind_assoc, bind_of_ok hrun2, hrun3]

theorem raises_silent {work : BlockId → Build Unit} {accept : Accept}
    (haccept : ∀ id, accept id c = (do work id; return none))
    (h : Raises e work home s deeds text count) :
    Raises e (fun id => accept id c >>= goOn descend id c) home s deeds text count := by
  intro w id hid hne
  obtain ⟨w', hrun, hraised⟩ := h hid hne
  refine ⟨w', ?_, hraised⟩
  dsimp only
  rw [haccept, bind_assoc, bind_of_ok hrun]
  rfl

theorem raises_word (word : String) :
    Raises {} (fun id => setLeft id (.text word)) home s (fun _ => []) (fun _ => word) fun n => n := by
  intro w id hid hne
  have hlt := hid.holds.lt_size
  obtain ⟨w', hrun, hwithin, hsize, hcount, hid'⟩ := hid.changed (fun e => { e with left := .text word }) rfl
  refine ⟨w', hrun, hwithin.mono fun _ hj => .inl hj, ?_, fun front last hchildren => ?_, hcount⟩
  · refine ⟨_, hid'.holds.shows (by omega) (spells_text word) (spells_text ""), ?_⟩
    exact (Doc.text_node rfl rfl).trans (by rw [Slot.filled_both, String.append_empty])
  · refine ⟨[], ?_, .nil⟩
    rw [hwithin.childrenOf hid.inMethod.lt_size hid.ne.symm, hchildren, append_nil]

variable {template : String} {w : Workshop}

theorem raises_operands (descend : Visit) {mark : String} (hchildren : c.children = [l, r])
    (hfilled : ∀ a b, Slot.filled? template a b = some (a ++ mark ++ b))
    (hl : Raises {} (fun id => descend id l) home s deeds text count)
    (hr : Raises {} (fun id => descend id r) home s deeds' text' count') :
    Raises {} (fun id => do setTemplate id template; operands descend id c) home s
      (fun n => deeds n ++ deeds' (count n)) (fun n => text n ++ mark ++ text' (count n))
      fun n => count' (count n) := by
  intro w id hid hne
  have hlt := hid.holds.lt_size
  have hhome := hid.inMethod.lt_size
  obtain ⟨w1, hrun1, hwithin1, hsize1, hcount1, hid1⟩ := hid.changed (fun e => { e with template }) rfl
  obtain ⟨w2, hrun2, hwithin2, hsize2, hcount2, hid2, hn2⟩ := hid1.made {} rfl
  obtain ⟨w3, hrun3, hwithin3, hsize3, hcount3, hid3, hm3⟩ := hid2.made {} rfl
  obtain ⟨w4, hrun4, hwithin4, hsize4, hcount4, hid4⟩ :=
    hid3.changed (fun e => { e with left := .block w1.blocks.size }) rfl
  obtain ⟨w5, hrun5, hwithin5, hsize5, hcount5, hid5⟩ :=
    hid4.changed (fun e => { e with right := .block w2.blocks.size }) rfl
  have hn5 := ((hn2.frame hwithin3 (by omega)).frame hwithin4 (by omega)).frame hwithin5 (by omega)
  have hm5 := (hm3.frame hwithin4 (by omega)).frame hwithin5 (by omega)
  have hwithin : Within (· = id) w w5 :=
    (((hwithin1.again hwithin2).again hwithin3).again hwithin4).again hwithin5
  have hcount : w5.madeUp = w.madeUp := by rw [hcount5, hcount4, hcount3, hcount2, hcount1]
  obtain ⟨w6, hrun6, hleft⟩ := hl hn5 (by
    rw [hwithin.childrenOf hhome hid.ne.symm]
    exact hne)
  have hm6 := hm5.frame hleft.within fun hj => hj.elim (by omega) hm5.ne
  obtain ⟨w7, hrun7, hright⟩ := hr hm6 (hleft.ne_nil (by
    rw [hwithin.childrenOf hhome hid.ne.symm]
    exact hne))
  rw [hcount] at hleft
  rw [hleft.count] at hright
  refine ⟨w7, ?_, hleft.both hright hwithin hid5 hlt (by omega) (by omega) (by omega) (by omega)
    (by omega) hhome (hfilled _ _)⟩
  have hoperands : operands descend id c w1 = .ok () w7 := by
    unfold operands exprIn
    rw [bind_of_ok hrun2, bind_of_ok hrun3]
    refine (bind_of_ok hrun4).trans ((bind_of_ok hrun5).trans ?_)
    rw [hchildren]
    exact (bind_of_ok hrun6).trans ((bind_of_ok hrun7).trans rfl)
  exact (bind_of_ok hrun1).trans hoperands

theorem Inside.openRight {id : Nat} (h : Inside w id home s e) :
    ∃ n w', Build.openRight id (.text "") w = .ok n w' ∧ Within (· = id) w w' ∧ w.blocks.size ≤ n
      ∧ w'.madeUp = w.madeUp ∧ Inside w' id home s { e with right := .block n }
      ∧ Inside w' n home s {} := by
  have hlt := h.holds.lt_size
  obtain ⟨w1, hrun1, hwithin1, hsize1, hcount1, hid1, hn1⟩ := h.made { left := .text "" } rfl
  obtain ⟨w2, hrun2, hwithin2, hsize2, hcount2, hid2⟩ :=
    hid1.changed (fun e => { e with right := .block w.blocks.size }) h.holds.tail
  refine ⟨w.blocks.size, w2, ?_, hwithin1.again hwithin2, Nat.le_refl _, hcount2.trans hcount1, hid2,
    hn1.frame hwithin2 (by omega)⟩
  exact (bind_of_ok hrun1).trans (bind_of_ok hrun2)

/-- What is said by a right operand that visits the only child. -/
theorem goOn_singleton {w' : Workshop} {n : Nat} (id : Nat) (hchildren : c.children = [d])
    (hrun : descend n d w = .ok () w') (hw : Calm w') :
    ∃ w'', goOn descend id c (some n) w = .ok () w'' ∧ Moved w' w'' := by
  obtain ⟨w'', hrun', hmoved⟩ := hw.takeComments_moved id n d.head.stop
  refine ⟨w'', ?_, hmoved⟩
  unfold goOn
  rw [hchildren]
  exact (bind_of_ok ((bind_of_ok hrun).trans hrun')).trans rfl

theorem raises_whole (wrap : String → String) (hkind : c.kind = .expr)
    (hchildren : c.children = [d]) (hwrap : ∀ a, Slot.filled? template "" a = some (wrap a))
    (h : Raises {} (fun id => descend id d) home s deeds text count) :
    Raises { template } (fun id => accept descend id c >>= goOn descend id c) home s deeds
      (fun n => wrap (text n)) count := by
  intro w id hid hne
  have hlt := hid.holds.lt_size
  have hhome := hid.inMethod.lt_size
  obtain ⟨n, w1, hrun1, hwithin1, hn, hcount1, hid1, hn1⟩ := hid.openRight
  obtain ⟨w2, hrun2, hraised⟩ := h hn1 (by
    rw [hwithin1.childrenOf hhome hid.ne.symm]
    exact hne)
  rw [hcount1] at hraised
  obtain ⟨w3, hrun3, hmoved⟩ := goOn_singleton id hchildren hrun2 (hraised.within.calm hn1.holds.calm)
  refine ⟨w3, ?_, (hraised.opened hwithin1 hid1 hlt hn hhome (hwrap _)).moved hmoved hhome⟩
  have haccept : accept descend id c w = .ok (some n) w1 := by
    unfold accept
    rw [hkind]
    exact bind_of_ok hrun1
  exact (bind_of_ok haccept).trans hrun3

/-- Parentheses are kept where no statement has its own. -/
theorem raises_parentheses {parent : Kind} (hkind : c.kind = .parenthesizedExpr)
    (hparent : c.parentKind? = some parent) (hkept : parenthesesLeftOut.contains parent = false)
    (hchildren : c.children = [d])
    (h : Raises { template := "(" ++ Slot.both ++ ")" } (fun id => descend id d) home s deeds text count) :
    Raises {} (fun id => accept descend id c >>= goOn descend id c) home s deeds text count := by
  intro w id hid hne
  have hlt := hid.holds.lt_size
  have hhome := hid.inMethod.lt_size
  obtain ⟨n, w1, hrun1, hwithin1, hn, hcount1, hid1, hn1⟩ := hid.openRight
  obtain ⟨w2, hrun2, hwithin2, hsize2, hcount2, hn2⟩ :=
    hn1.changed (fun e => { e with template := "(" ++ Slot.both ++ ")" }) rfl
  have hid2 := hid1.frame hwithin2 (by omega)
  have hwithin : Within (· = id) w w2 := hwithin1.beyond hwithin2 hn
  obtain ⟨w3, hrun3, hraised⟩ := h hn2 (by
    rw [hwithin.childrenOf hhome hid.ne.symm]
    exact hne)
  rw [hcount2, hcount1] at hraised
  obtain ⟨w4, hrun4, hmoved⟩ := goOn_singleton id hchildren hrun3 (hraised.within.calm hn2.holds.calm)
  refine ⟨w4, ?_, (hraised.opened hwithin hid2 hlt hn hhome ?_).moved hmoved hhome⟩
  · have haccept : accept descend id c w = .ok (some n) w2 := by
      unfold accept parentheses
      rw [hkind, hparent]
      refine (bind_of_ok rfl).trans ?_
      rw [hkept]
      exact (bind_of_ok hrun1).trans (bind_of_ok hrun2)
    exact (bind_of_ok haccept).trans hrun4
  · rw [Slot.filled_both, String.empty_append]

/-- The standard settings make up names for the values that are kept. -/
theorem setting_freshName {id : Nat} (h : Holds w id s e) :
    setting id "VariableNaming" "Handler" .none w = .ok (.handler .freshName) w := by
  obtain ⟨b, hb, hform⟩ := h.form
  unfold setting
  rw [bind_of_ok (get_apply w), bind_of_ok (settingName_apply hb _ _), h.calm.config, hform]
  rfl

theorem callSetting_freshName (w : Workshop) (name : String) :
    callSetting (.handler .freshName) [.text name] w
      = .ok (.text (madeUpName name w.madeUp)) { w with madeUp := w.madeUp + 1 } := rfl

theorem within_madeUp (w : Workshop) (n : Nat) : Within (fun _ => False) w { w with madeUp := n } :=
  ⟨rfl, rfl, Nat.le_refl _, fun _ _ => rfl, fun _ _ _ => rfl⟩

/-- The line of a step is put before the statement, and a word stands in the place of the step. -/
theorem raises_shown {name : String} (hname : IsName name) (up : Bool) (word : String) :
    Raises {} (fun id => do
        let left ← expr (some id) { template := Slot.left, left := .text word }
        setLeft id (.block left)
        let stepped ← looseExpr {
          template := Slot.left ++ (if up then " += 1" else " -= 1"), left := .text name }
        adopt home stepped (-1))
      home s (fun _ => [.step name up]) (fun _ => word) fun n => n := by
  intro w id hid hne
  have hlt := hid.holds.lt_size
  have hhome := hid.inMethod.lt_size
  obtain ⟨w1, hrun1, hwithin1, hsize1, hcount1, hid1, hn1⟩ :=
    hid.made { template := Slot.left, left := .text word } rfl
  obtain ⟨w2, hrun2, hwithin2, hsize2, hcount2, hid2⟩ :=
    hid1.changed (fun e => { e with left := .block w.blocks.size }) rfl
  have hn2 := hn1.frame hwithin2 (by omega)
  have hwithin : Within (· = id) w w2 := hwithin1.again hwithin2
  have hfilled : Slot.filled? (Slot.left ++ (if up then " += 1" else " -= 1")) name ""
      = some (Deed.step name up).text := by
    cases up <;> exact Slot.filled_ending _ (by decide) _ _
  have hchildren := hwithin.childrenOf hhome hid.ne.symm
  rw [← dropLast_append_getLast hne] at hchildren
  obtain ⟨w3, hrun3, hwithin3, hchildren3, hlaid, hcount3⟩ := inserted hchildren hfilled
    (Deed.worded_text hname)
  refine ⟨w3, ?_, ?_, ?_, fun front last hfront => ?_, ?_⟩
  · exact (bind_of_ok hrun1).trans ((bind_of_ok hrun2).trans hrun3)
  · refine (hwithin.mono fun _ hj => .inl hj).trans hwithin3 fun j hj => .inl (.inr hj)
  · have hleft := ((hn2.frame hwithin3 hn2.ne).holds.shows_texts (fun _ => False) not_false).spells
      (Q := fun j => w.blocks.size ≤ j) (fun _ hj => hj.elim) (Nat.le_refl _)
    refine ⟨_, (hid2.frame hwithin3 hid.ne).holds.shows (by omega) hleft (spells_text ""), ?_⟩
    have hword : (Sheet.doc ⟨Slot.left, .atom (.text word), .atom (.text "")⟩).text? = some word :=
      (Doc.text_node rfl rfl).trans (by simpa using Slot.filled_ending "" (by decide) word "")
    exact (Doc.text_node hword rfl).trans (by rw [Slot.filled_both, String.append_empty])
  · rw [← dropLast_append_getLast hne] at hfront
    obtain ⟨rfl, rfl⟩ := append_singleton_inj.1 hfront
    exact ⟨[w2.blocks.size], hchildren3, hlaid.mono hwithin.size⟩
  · rw [hcount3, hcount2, hcount1]

theorem raises_step (descend : Visit) {before up : Bool} (hnested : c.head.nested = true)
    (hident : c.child? .ident = some d) (hname : IsName d.text) :
    Raises {} (fun id => increment descend id c (if up then " += 1" else " -= 1") before) home s
      (fun n => ((Formula.step d.text before up).hoist n).deeds)
      (fun n => ((Formula.step d.text before up).hoist n).term.text)
      fun n => ((Formula.step d.text before up).hoist n).count := by
  intro w id hid hne
  have hlt := hid.holds.lt_size
  have hhome := hid.inMethod.lt_size
  have hwithin1 := within_madeUp w (w.madeUp + 1)
  have hid1 := hid.frame hwithin1 not_false
  have htext : textOf (c.child? .ident) w = .ok d.text w := by
    rw [hident]
    rfl
  dsimp only
  unfold increment
  rw [if_pos hnested, bind_of_ok htext, bind_of_ok (setting_freshName hid.holds),
    bind_of_ok (callSetting_freshName w d.text), bind_of_ok hid1.inMethod.enclosing]
  cases before with
  | true =>
    obtain ⟨w2, hrun2, hraised⟩ := raises_shown hname up d.text hid1 hne
    exact ⟨w2, hrun2, hraised.after hwithin1 rfl hhome⟩
  | false =>
    -- The old value is kept on a line before that of the step.
    have hchildren := (dropLast_append_getLast hne).symm
    obtain ⟨w2, hrun2, hwithin2, hchildren2, hlaid2, hcount2⟩ := inserted
      (w := { w with madeUp := w.madeUp + 1 }) hchildren
      (Slot.filled_between " = " (by decide) (madeUpName d.text w.madeUp) d.text)
      (Deed.worded_text (d := .assign (madeUpName d.text w.madeUp) (.word d.text))
        ⟨isName_madeUpName hname _, .inl hname⟩)
    have hne2 : w2.childrenOf home ≠ [] := by
      rw [hchildren2]
      exact append_ne_nil_of_right_ne_nil _ (cons_ne_nil _ _)
    obtain ⟨w3, hrun3, hraised⟩ := raises_shown hname up (madeUpName d.text w.madeUp)
      (hid1.frame hwithin2 hid.ne) hne2
    rw [hcount2] at hraised
    refine ⟨w3, ?_, .after hwithin1 rfl
      (.behind hwithin2 hchildren hchildren2 hlaid2 hlt hhome hraised) hhome⟩
    obtain ⟨kept, w', hkept, hadopted⟩ := bind_eq_ok.1 hrun2
    rw [if_pos Bool.not_false]
    exact (bind_of_ok hkept).trans ((bind_of_ok hadopted).trans hrun3)

theorem raises_name {name : String} (hname : s.rename name = name) :
    Raises {} (fun id => do setLeft id (.text (← qualify id name))) home s (fun _ => [])
      (fun _ => name) fun n => n := by
  intro w id hid hne
  obtain ⟨w', hrun, hraised⟩ := raises_word name hid hne
  refine ⟨w', ?_, hraised⟩
  have hqualify := hid.holds.scope.qualify name
  rw [hname] at hqualify
  exact (bind_of_ok hqualify).trans hrun

theorem accept_template (h : template? c.kind c.text = some template) {id : BlockId} :
    accept descend id c = (do
      (do setTemplate id template; operands descend id c)
      return none) := by
  unfold accept
  rw [h, bind_assoc]

theorem accept_step {step : String} {before : Bool} (h : stepKind? c.kind = some (step, before))
    {id : BlockId} :
    accept descend id c = (do increment descend id c step before; return none) := by
  have htemplate : template? c.kind c.text = none := by
    unfold stepKind? at h
    split at h
    case h_5 => cases h
    all_goals
      rename_i hkind
      rw [hkind]
      rfl
  unfold accept
  rw [htemplate, h]

theorem filled_arithmetic (op : Arithmetic) (text : String) :
    ∃ template, template? op.toBinary.kind text = some template ∧ ∀ a b,
      Slot.filled? template a b = some (a ++ (" " ++ Reading.sign op.toBinary ++ " ") ++ b) := by
  cases op <;> exact ⟨_, rfl, Slot.filled_between _ (by decide)⟩

end

/-- The walk over the tree of a formula. -/
theorem StandsFor.raises {t : Tree} {f : Formula} (h : StandsFor t f) (hf : f.WellFormed) (home : Nat)
    {s : Scope} (hs : ∀ x ∈ f.names, s.rename x = x) {fuel : Nat} (hfuel : t.height ≤ fuel)
    (above : List Tree) (henclosed : Enclosed ⟨t, above⟩) :
    Raises {} (fun id => walkUpTo fuel id ⟨t, above⟩) home s (fun n => (f.hoist n).deeds)
      (fun n => (f.hoist n).term.text) fun n => (f.hoist n).count := by
  induction h generalizing fuel above with
  | @number head hkind =>
    obtain ⟨n, rfl⟩ := Tree.exists_fuel hfuel
    refine raises_visit (raises_silent (fun id => ?_) (raises_word head.text))
    unfold accept
    rw [show (Cursor.mk (.node head []) above).kind = .decimalLiteral from hkind]
    rfl
  | @name head hkind =>
    obtain ⟨n, rfl⟩ := Tree.exists_fuel hfuel
    refine raises_visit (raises_silent (fun id => ?_) (raises_name (hs head.text (mem_singleton_self _))))
    unfold accept
    rw [show (Cursor.mk (.node head []) above).kind = .ident from hkind, bind_assoc]
    rfl
  | @step head inner before up hkind hnested hinner =>
    obtain ⟨n, rfl⟩ := Tree.exists_fuel hfuel
    have hident : (Cursor.mk (.node head [.node inner []]) above).child? .ident
        = some ⟨.node inner [], .node head [.node inner []] :: above⟩ := by
      refine List.find?_cons_of_pos ?_
      exact beq_iff_eq.2 hinner
    refine raises_visit (raises_silent (fun id => ?_) (raises_step (walkUpTo n) (d := ⟨.node inner [], _⟩)
      (c := ⟨.node head [.node inner []], above⟩) hnested hident hf))
    exact accept_step (c := ⟨.node head [.node inner []], above⟩) hkind
  | @binary op head l r f g hkind hl hr ihl ihr =>
    obtain ⟨n, rfl⟩ := Tree.exists_fuel hfuel
    obtain ⟨-, -, hleft, hright⟩ := hf
    have hheight : ∀ u ∈ [l, r], u.height ≤ n := fun u hu => by
      have hlt := Tree.height_child (t := .node head [l, r]) hu
      omega
    have hkept : parenthesesLeftOut.contains head.kind = false := by
      rw [hkind]
      cases op <;> rfl
    obtain ⟨template, htemplate, hfilled⟩ := filled_arithmetic op head.text
    have hraises := raises_operands (walkUpTo n) (c := ⟨.node head [l, r], above⟩) rfl hfilled
      (ihl hleft (fun x hx => hs x (mem_append_left _ hx)) (hheight l (by simp))
        (.node head [l, r] :: above) (enclosed_child (c := ⟨.node head [l, r], above⟩) hkept))
      (ihr hright (fun x hx => hs x (mem_append_right _ hx)) (hheight r (by simp))
        (.node head [l, r] :: above) (enclosed_child (c := ⟨.node head [l, r], above⟩) hkept))
    refine raises_visit (raises_silent (fun id => accept_template (c := ⟨.node head [l, r], above⟩)
      ((congrArg (template? · head.text) hkind).trans htemplate)) (hraises.congr fun n => ?_))
    simp [Formula.hoist, Term.text, String.append_assoc]
  | @parenthesized head inner t f hkind hinner h ih =>
    obtain ⟨n, rfl⟩ := Tree.exists_fuel hfuel
    have hinnerHeight := Tree.height_child (t := .node head [.node inner [t]]) (mem_singleton_self _)
    have hheight := Tree.height_child (t := .node inner [t]) (mem_singleton_self _)
    obtain ⟨m, rfl⟩ := Tree.exists_fuel (show (Source.Tree.node inner [t]).height ≤ n by omega)
    obtain ⟨parent, hparent, hkept⟩ := henclosed hkind
    have hopen : parenthesesLeftOut.contains inner.kind = false := by
      rw [hinner]
      rfl
    have hraises := ih hf hs (show t.height ≤ m by omega)
      (.node inner [t] :: .node head [.node inner [t]] :: above)
      (enclosed_child (c := ⟨.node inner [t], .node head [.node inner [t]] :: above⟩) hopen)
    refine raises_visit (raises_parentheses (c := ⟨.node head [.node inner [t]], above⟩) hkind hparent
      hkept rfl (raises_visit (raises_whole (fun a => "(" ++ a ++ ")")
        (c := ⟨.node inner [t], .node head [.node inner [t]] :: above⟩) hinner rfl (fun a => ?_)
        hraises)))
    rw [Slot.filled_parentheses, String.empty_append]

end Transcriber
