import Transcriber.Proofs.Revision.Settled

/-!
# Names that become one

A name that the output language reserves gets an underscore.  No name is a reserved one afterwards, but a
reserved name and the same name with an underscore have become one.

* `reserved_names_merge_iff` — what becomes of the names of a tree.
-/

namespace Transcriber

open Source Standard

namespace Edit

/-- Two names become one if one of them is reserved and the other one is it with an underscore. -/
theorem safe_eq_safe_iff {a b : String} (h : a ≠ b) : safe a = safe b
    ↔ a ∈ reservedNames ∧ b = a ++ "_" ∨ b ∈ reservedNames ∧ a = b ++ "_" := by
  have hapart : ∀ {a b : String}, b ∈ reservedNames → b ≠ a ++ "_" := fun hb heq =>
    append_underscore_ne (getLast?_reservedNames _ hb) heq.symm
  by_cases ha : a ∈ reservedNames
  · by_cases hb : b ∈ reservedNames
    · simp [safe, ha, hb, h, hapart ha, hapart hb]
    · simp [safe, ha, hb, eq_comm]
  · by_cases hb : b ∈ reservedNames
    · simp [safe, ha, hb]
    · simp [safe, ha, hb, h]

end Edit

def Standard.nameRule : Value := .list [.selector (ofKind .ident), .handler (.edit .safeName)]

namespace Source.Forest

def nameAt? (f : Forest) (id : NodeId) : Option String :=
  (f.get? id).bind fun e => if e.head.kind == .ident then some e.head.text else none

theorem mem_nodes_ofTree {t : Tree} {id : NodeId} {e : Entry} (h : (ofTree t).get? id = some e) :
    id ∈ (t.shapeFrom 0).nodes := by
  have hlt : id < (ofTree t).size := (Array.getElem?_eq_some_iff.1 h).1
  rw [ofTree, (plant_bears empty none t).2.1.size_eq] at hlt
  rw [Tree.nodes_shapeFrom, List.mem_range'_1]
  exact ⟨Nat.zero_le _, hlt⟩

/-- The edit of names makes all names of a tree safe. -/
theorem reviseWith_nameRule (t : Tree) (report : Report) :
    ∃ g : Forest, reviseWith Edit.standardTables nameRule ⟨ofTree t, report⟩ = .ok () ⟨g, report⟩
      ∧ ∀ id, g.nameAt? id = ((ofTree t).nameAt? id).map Edit.safe := by
  have hbears := bears_ofTree t
  have hnodup := t.nodup_shapeFrom 0
  refine ⟨_, reviseWith_rewrites (r := Edit.rewriting (ofKind .ident, .safeName)) report hbears hnodup
    (t.id_shapeFrom 0) (fun _ _ _ => Edit.apply_rewrites .safeName nofun nofun) fun done id hid e he => ?_,
    fun id => ?_⟩
  · have hget : ((ofTree t).rewritten [Edit.rewriting (ofKind .ident, .safeName)] done).get? id = some _ :=
      get?_retext.trans (congrArg (Option.map _) he)
    refine (Selector.select_eq hbears.retext hnodup (ofKind .ident) trivial trivial hid).trans ?_
    rw [← rewritten, Plain.times_ofKind .ident hget]
    rfl
  · unfold nameAt?
    cases he : (ofTree t).get? id with
    | none => rw [rewritten, get?_retext, he]; rfl
    | some e =>
      rw [get?_rewritten_of_mem _ he (mem_nodes_ofTree he)]
      by_cases hkind : e.head.kind = .ident <;>
        simp [Edit.rewriting, Rewriting.text, ofKind, Selector.picks, Edit.change, hkind]

end Source.Forest

/-- The edit of names succeeds on every tree.  No name is a reserved one afterwards, and of two names that differed
both are the same afterwards if and only if one of them was reserved and the other one was it with an underscore. -/
theorem reserved_names_merge_iff (t : Tree) (report : Report) :
    ∃ g : Forest, reviseWith Edit.standardTables nameRule ⟨Forest.ofTree t, report⟩ = .ok () ⟨g, report⟩
      ∧ ∀ i j a b, (Forest.ofTree t).nameAt? i = some a → (Forest.ofTree t).nameAt? j = some b → a ≠ b →
        ∃ a' b', g.nameAt? i = some a' ∧ g.nameAt? j = some b' ∧ a' ∉ reservedNames ∧ b' ∉ reservedNames
          ∧ (a' = b' ↔ a ∈ reservedNames ∧ b = a ++ "_" ∨ b ∈ reservedNames ∧ a = b ++ "_") := by
  obtain ⟨g, hrun, hnames⟩ := Forest.reviseWith_nameRule t report
  refine ⟨g, hrun, fun i j a b ha hb hne => ⟨Edit.safe a, Edit.safe b, ?_, ?_, Edit.safe_not_mem a,
    Edit.safe_not_mem b, Edit.safe_eq_safe_iff hne⟩⟩
  · rw [hnames, ha, Option.map_some]
  · rw [hnames, hb, Option.map_some]

def nearlyReserved : Tree :=
  .node { kind := .expr } [.node { kind := .ident, text := "not" } [], .node { kind := .ident, text := "not_" } []]

/-- The names `not` and `not_` become one. -/
theorem reserved_names_merge : ∃ g : Forest,
    reviseWith Edit.standardTables nameRule ⟨.ofTree nearlyReserved, []⟩ = .ok () ⟨g, []⟩
      ∧ g.nameAt? 1 = g.nameAt? 2 := by
  obtain ⟨g, hrun, hnames⟩ := reserved_names_merge_iff nearlyReserved []
  obtain ⟨a, b, ha, hb, -, -, hmerge⟩ := hnames 1 2 "not" "not_" rfl rfl (by decide)
  exact ⟨g, hrun, by rw [ha, hb, hmerge.2 (.inl ⟨by decide, rfl⟩)]⟩

end Transcriber
