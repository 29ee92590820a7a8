import CSharpOutline.Proofs.Code.Passing
import CSharpOutline.Proofs.Head.Parts
import CSharpOutline.Proofs.Member.FlatBody

/-!
# Where a body is looked for

The end of a body is looked for with angle brackets left out, because a body holds comparisons. The
opener of the body is looked for with angle brackets counted. Both counts read the same code and
have the same depth of parentheses and braces at every place (`Balance.isOutermost_fresh_iff`), so
the search for the opener differs in one point only: it passes over each opener in front of which
an angle bracket is still open.

That is harmless as long as angle brackets come in pairs, and a comparison is where they do not. The
arguments of a constructor initializer may hold one. So the body behind an initializer is found
exactly if the angle brackets among its arguments are closed again (`Text.firstOpener?_agrees`), and
a constructor that hands on `a < b` is not found at all (`Text.firstOpener?_comparison`).
-/

namespace CSharpOutline

namespace Balance

/-! ## Counting with and without angle brackets

Whether angle brackets are counted makes no difference to the other brackets, so what is outermost
with them counted is what is outermost without them and has none of them open in front. -/

private theorem depth_run_congr {k : Bracket} {b b' : Balance} (hlexer : b.lexer = b'.lexer)
    (hdepth : b.depths.of k = b'.depths.of k) (hcounts : b.counts k = b'.counts k) (t : Text) :
    (b.run t).depths.of k = (b'.run t).depths.of k := by
  induction t generalizing b b' with
  | nil => exact hdepth
  | cons c t ih =>
    exact ih (by rw [step_lexer, step_lexer, hlexer]) (depth_step_congr hlexer hdepth hcounts c)
      hcounts

private theorem depth_run_of_not_counts {k : Bracket} {b : Balance} (h : b.counts k = false)
    (t : Text) : (b.run t).depths.of k = b.depths.of k := by
  induction t generalizing b with
  | nil => rfl
  | cons c t ih =>
    have hstep : (b.step c).depths.of k = b.depths.of k := by
      rw [depth_step, if_neg]
      rintro ⟨-, hcounts⟩
      rw [h] at hcounts
      exact absurd hcounts (by decide)
    exact (ih (b := b.step c) h).trans hstep

theorem counts_withoutAngles {k : Bracket} (hk : k ≠ .angle) :
    withoutAngles.counts k = fresh.counts k := by
  rw [counts, counts, bne_iff_ne.mpr hk, Bool.or_true, Bool.or_true]

/-- Whether angle brackets are counted makes no difference to the other brackets. -/
theorem depth_run_withoutAngles {k : Bracket} (hk : k ≠ .angle) (t : Text) :
    (withoutAngles.run t).depths.of k = (fresh.run t).depths.of k := by
  have hlexer : withoutAngles.lexer = fresh.lexer := rfl
  exact depth_run_congr hlexer rfl (counts_withoutAngles hk) t

theorem afterStop?_closed_withoutAngles {k : Bracket} (hk : k ≠ .angle) (t : Text) :
    withoutAngles.afterStop? (closed k) t = fresh.afterStop? (closed k) t := by
  have hlexer : withoutAngles.lexer = fresh.lexer := rfl
  rw [afterStop?_eq_map, afterStop?_eq_map,
    stopOffset?_closed_congr hlexer rfl (counts_withoutAngles hk)]

theorem lexer_run_withoutAngles (t : Text) :
    (withoutAngles.run t).lexer = (fresh.run t).lexer := by
  rw [run_lexer, run_lexer]
  rfl

theorem atTop_iff (b : Balance) : b.atTop = true ↔
    b.depths.angle = 0 ∧ b.depths.paren = 0 ∧ b.depths.brace = 0 := by
  rw [atTop, beq_iff_eq, Depths.total]
  omega

theorem atTop_withoutAngles_iff (t : Text) : (withoutAngles.run t).atTop = true ↔
    (withoutAngles.run t).depths.paren = 0 ∧ (withoutAngles.run t).depths.brace = 0 := by
  have hangle : (withoutAngles.run t).depths.angle = 0 :=
    depth_run_of_not_counts (k := .angle) rfl t
  rw [atTop_iff]
  exact and_iff_right hangle

/-- **What is outermost with angle brackets counted** is what is outermost without them and has no
angle bracket open in front of it. -/
theorem isOutermost_fresh_iff (t : Text) (c : Char) :
    (fresh.run t).isOutermost c = true ↔
      (withoutAngles.run t).isOutermost c = true ∧ (fresh.run t).depths.angle = 0 := by
  have hcode : (fresh.run t).isCode c = (withoutAngles.run t).isCode c := by
    rw [isCode, isCode, lexer_run_withoutAngles]
  have hparen : (withoutAngles.run t).depths.paren = (fresh.run t).depths.paren :=
    depth_run_withoutAngles (k := .paren) (by decide) t
  have hbrace : (withoutAngles.run t).depths.brace = (fresh.run t).depths.brace :=
    depth_run_withoutAngles (k := .brace) (by decide) t
  rw [isOutermost, isOutermost, Bool.and_eq_true, Bool.and_eq_true, hcode,
    atTop_withoutAngles_iff, atTop_iff, hparen, hbrace]
  constructor
  · rintro ⟨⟨hangle, hdepths⟩, hc⟩
    exact ⟨⟨hdepths, hc⟩, hangle⟩
  · rintro ⟨⟨hdepths, hc⟩, hangle⟩
    exact ⟨⟨hangle, hdepths⟩, hc⟩

end Balance

/-! ## The first opener -/

/-- An offset and opener of a kind, with no other of that kind in front. -/
def IsFirst (p : Nat → Opener → Prop) (i : Nat) (o : Opener) : Prop :=
  p i o ∧ ∀ j < i, ∀ o', ¬p j o'

theorem IsFirst.congr {p q : Nat → Opener → Prop} (h : ∀ i o, p i o ↔ q i o) {i : Nat}
    {o : Opener} : IsFirst p i o ↔ IsFirst q i o := by
  simp only [IsFirst, h]

/-- Offsets may be counted from a later place, if nothing is in front of that. -/
theorem IsFirst.add_iff {p : Nat → Opener → Prop} {start : Nat} (h : ∀ i o, p i o → start ≤ i)
    {j : Nat} {o : Opener} : IsFirst (fun j ↦ p (start + j)) j o ↔ IsFirst p (start + j) o := by
  refine and_congr_right fun _ ↦ ⟨fun hbefore i hi o' hp ↦ ?_, fun hbefore i hi ↦ ?_⟩
  · obtain ⟨i, rfl⟩ := Nat.exists_eq_add_of_le (h i o' hp)
    exact hbefore i (by omega) o' hp
  · exact hbefore (start + i) (by omega)

namespace Balance

/-- An opener stands at an offset of a text, outside every group that is counted. -/
def OpensAt (b : Balance) (t : Text) (j : Nat) (o : Opener) : Prop :=
  Opener.read? (t.drop j) = some o ∧
    ∃ c, t[j]? = some c ∧ (b.run (t.take j)).isOutermost c = true

/-- The opener at a stop, with its offset. -/
def openerAt? (s : Stop) : Option (Int × Opener) := (Opener.read? s.text).map (s.offset, ·)

variable {b : Balance} {start : Nat} {t : Text}

theorem OpensAt.mem_stops {j : Nat} {o : Opener} (h : b.OpensAt t j o) (start : Nat) :
    ⟨start + j, t.drop j⟩ ∈ b.stops start t := by
  obtain ⟨-, c, hc, hout⟩ := h
  exact mem_stops_iff.mpr ⟨j, c, hc, hout, rfl⟩

theorem findSome?_stops_eq_none_iff :
    (b.stops start t).findSome? openerAt? = none ↔ ∀ j o, ¬b.OpensAt t j o := by
  rw [List.findSome?_eq_none_iff]
  constructor
  · intro h j o hopens
    have hnone := h _ (hopens.mem_stops start)
    rw [openerAt?, hopens.1] at hnone
    exact absurd hnone (by simp)
  · intro h s hs
    obtain ⟨j, c, hc, hout, rfl⟩ := mem_stops_iff.mp hs
    rw [openerAt?, Option.map_eq_none_iff, Option.eq_none_iff_forall_ne_some]
    exact fun o hread ↦ h j o ⟨hread, c, hc, hout⟩

theorem isFirst_of_findSome?_stops {x : Int × Opener}
    (h : (b.stops start t).findSome? openerAt? = some x) :
    ∃ j, x.1 = (start + j : Nat) ∧ IsFirst (b.OpensAt t) j x.2 := by
  obtain ⟨earlier, s, later, hstops, hs, hearlier⟩ := List.findSome?_eq_some_iff.mp h
  have hmem : s ∈ b.stops start t := by
    rw [hstops]
    exact List.mem_append_right _ List.mem_cons_self
  obtain ⟨j, c, hc, hout, rfl⟩ := mem_stops_iff.mp hmem
  obtain ⟨o, hread, rfl⟩ := Option.map_eq_some_iff.mp hs
  refine ⟨j, (Int.natCast_add start j).symm, ⟨hread, c, hc, hout⟩, fun l hl o' hopens ↦ ?_⟩
  -- stops are listed by their offsets, so the one at `l` is among the earlier ones
  have hsorted := pairwise_stops b start t
  rw [hstops, List.pairwise_append] at hsorted
  have hl' := hopens.mem_stops start
  rw [hstops] at hl'
  rcases List.mem_append.mp hl' with hbefore | hbehind
  · have hnone := hearlier _ hbefore
    rw [openerAt?, hopens.1] at hnone
    exact absurd hnone (by simp)
  · rcases List.mem_cons.mp hbehind with heq | hbehind
    · have hoffset := congrArg Stop.offset heq
      dsimp only at hoffset
      omega
    · have hlt := (List.pairwise_cons.mp hsorted.2.1).1 _ hbehind
      dsimp only at hlt
      omega

theorem findSome?_stops_eq_some_iff {j : Nat} {o : Opener} :
    (b.stops start t).findSome? openerAt? = some (((start + j : Nat) : Int), o) ↔
      IsFirst (b.OpensAt t) j o := by
  constructor
  · intro h
    obtain ⟨i, hi, hfirst⟩ := isFirst_of_findSome?_stops h
    obtain rfl : i = j := by
      dsimp only at hi
      omega
    exact hfirst
  · intro hj
    obtain ⟨x, hx⟩ : ∃ x, (b.stops start t).findSome? openerAt? = some x := by
      apply Option.ne_none_iff_exists'.mp
      intro hnone
      exact findSome?_stops_eq_none_iff.mp hnone j o hj.1
    obtain ⟨i, hi, hfirst⟩ := isFirst_of_findSome?_stops hx
    -- two first openers are one
    obtain rfl : i = j := by
      rcases Nat.lt_trichotomy i j with hlt | heq | hlt
      · exact absurd hfirst.1 (hj.2 i hlt _)
      · exact heq
      · exact absurd hj.1 (hfirst.2 j hlt _)
    rw [hx, ← hi, Option.some.inj (hj.1.1.symm.trans hfirst.1.1)]

end Balance

namespace Text

open Balance

/-- An opener stands at the offset `i` of a text that is read from the offset `start` on: it is
code, and no parenthesis and no brace that was opened since is open. -/
structure OpensBodyAt (t : Text) (start i : Nat) (o : Opener) : Prop where
  le : start ≤ i
  read : Opener.read? (t.drop i) = some o
  isCode : ∃ c, t[i]? = some c ∧ (withoutAngles.run ((t.take i).drop start)).isCode c = true
  paren_eq : (withoutAngles.run ((t.take i).drop start)).depths.paren = 0
  brace_eq : (withoutAngles.run ((t.take i).drop start)).depths.brace = 0

/-- The number of angle brackets open in front of the offset `i` of a text that is read from the
offset `start` on. -/
def angleDepth (t : Text) (start i : Nat) : Nat :=
  (fresh.run ((t.take i).drop start)).depths.angle

variable {t : Text} {start j : Nat} {o : Opener}

theorem drop_take_add (t : Text) (start j : Nat) :
    (t.take (start + j)).drop start = (t.drop start).take j := by
  rw [List.drop_take, Nat.add_sub_cancel_left]

theorem opensAt_withoutAngles_iff :
    withoutAngles.OpensAt (t.drop start) j o ↔ OpensBodyAt t start (start + j) o := by
  rw [OpensAt, List.drop_drop, List.getElem?_drop, ← drop_take_add]
  simp only [isOutermost, Bool.and_eq_true, atTop_withoutAngles_iff]
  constructor
  · rintro ⟨hread, c, hc, ⟨hparen, hbrace⟩, hcode⟩
    exact ⟨Nat.le_add_right start j, hread, ⟨c, hc, hcode⟩, hparen, hbrace⟩
  · rintro ⟨-, hread, ⟨c, hc, hcode⟩, hparen, hbrace⟩
    exact ⟨hread, c, hc, ⟨hparen, hbrace⟩, hcode⟩

theorem opensAt_fresh_iff : fresh.OpensAt (t.drop start) j o ↔
    OpensBodyAt t start (start + j) o ∧ angleDepth t start (start + j) = 0 := by
  rw [← opensAt_withoutAngles_iff, OpensAt, OpensAt, angleDepth, drop_take_add]
  simp only [isOutermost_fresh_iff]
  constructor
  · rintro ⟨hread, c, hc, hout, hangle⟩
    exact ⟨⟨hread, c, hc, hout⟩, hangle⟩
  · rintro ⟨⟨hread, c, hc, hout⟩, hangle⟩
    exact ⟨hread, c, hc, hout, hangle⟩

theorem firstOpener?_eq (t : Text) (start : Nat) :
    t.firstOpener? start = .ok ((fresh.stops start (t.drop start)).findSome? openerAt?) := by
  rw [firstOpener?, stopsFrom_natCast]
  rfl

theorem firstOpener?_eq_some_iff {i : Nat} :
    t.firstOpener? start = .ok (some ((i : Int), o)) ↔
      IsFirst (fun i o ↦ OpensBodyAt t start i o ∧ angleDepth t start i = 0) i o := by
  rw [firstOpener?_eq, Except.ok.injEq]
  constructor
  · intro h
    obtain ⟨j, hj, hfirst⟩ := isFirst_of_findSome?_stops h
    obtain rfl : i = start + j := by
      dsimp only at hj
      omega
    rw [← IsFirst.add_iff fun i o h ↦ h.1.le]
    exact (IsFirst.congr fun _ _ ↦ opensAt_fresh_iff).mp hfirst
  · intro h
    obtain ⟨j, rfl⟩ := Nat.exists_eq_add_of_le h.1.1.le
    rw [← IsFirst.add_iff fun i o h ↦ h.1.le] at h
    exact findSome?_stops_eq_some_iff.mpr ((IsFirst.congr fun _ _ ↦ opensAt_fresh_iff).mpr h)

private theorem firstOpener?_eq_none_iff :
    t.firstOpener? start = .ok none ↔
      ∀ i o, OpensBodyAt t start i o → angleDepth t start i ≠ 0 := by
  rw [firstOpener?_eq, Except.ok.injEq, findSome?_stops_eq_none_iff]
  constructor
  · intro h i o hopens hangle
    obtain ⟨j, rfl⟩ := Nat.exists_eq_add_of_le hopens.le
    exact h j o (opensAt_fresh_iff.mpr ⟨hopens, hangle⟩)
  · intro h j o hopens
    obtain ⟨hbody, hangle⟩ := opensAt_fresh_iff.mp hopens
    exact h _ o hbody hangle

/-- The opener that comes first with angle brackets left out is found exactly if none of them is
open in front of it. -/
theorem firstOpener?_iff_of_isFirst {i : Nat} (h : IsFirst (OpensBodyAt t start) i o) :
    t.firstOpener? start = .ok (some ((i : Int), o)) ↔ angleDepth t start i = 0 := by
  rw [firstOpener?_eq_some_iff]
  constructor
  · exact fun hfirst ↦ hfirst.1.2
  · exact fun hangle ↦ ⟨⟨h.1, hangle⟩, fun j hj o' hopens ↦ h.2 j hj o' hopens.1⟩

end Text

/-! ## Constructor initializers

What leads up to the arguments is neutral, and inside their parentheses no body opens. Behind them
there is code again with nothing to remember and, angle brackets left out, with nothing open. -/

namespace Balance

variable {b : Balance} {s : Text}

private theorem opening?_of_isNeutral (hb : b.lexer.mode = .code .plain)
    (hs : ∀ c ∈ s, isNeutral c = true ∧ c ≠ ';') (t : Text) :
    b.opening? (s ++ t) = b.opening? t := by
  induction s with
  | nil => rfl
  | cons c s ih =>
    rw [List.forall_mem_cons] at hs
    obtain ⟨⟨hneutral, hsemicolon⟩, hs⟩ := hs
    have hread : Opener.read? (c :: (s ++ t)) = none := by
      rw [Opener.read?_cons, if_neg, if_neg hsemicolon, if_neg]
      · rintro ⟨rfl, -⟩
        exact absurd hneutral (by decide)
      · rintro rfl
        exact absurd hneutral (by decide)
    rw [List.cons_append, opening?, hread, ite_self, step_of_isNeutral hb hneutral]
    exact ih hs

private theorem isCode_of_read? (hb : b.lexer.mode = .code .plain) {c : Char} {t : Text}
    {o : Opener} (h : Opener.read? (c :: t) = some o) : b.isCode c = true := by
  have hc : c = '{' ∨ c = ';' ∨ c = '=' := by
    rw [Opener.read?_cons] at h
    grind
  rw [isCode, Lexer.isCode, hb]
  rcases hc with rfl | rfl | rfl <;> rfl

private theorem opening?_of_open (hb : b.depths.of .paren ≠ 0)
    (hs : b.afterStop? (closed .paren) s = some []) (t : Text) :
    b.opening? (s ++ t) = (b.run s).opening? t := by
  induction s generalizing b with
  | nil => exact absurd hs (by simp [afterStop?])
  | cons c s ih =>
    have hout : ¬b.isOutermost c = true := by
      rw [isOutermost, Bool.and_eq_true, atTop_iff]
      exact fun h ↦ hb h.1.2.1
    rw [List.cons_append, opening?, if_neg hout, run_cons]
    rw [afterStop?] at hs
    split at hs
    · rw [Option.some.inj hs]
      rfl
    · next hopen => exact ih (by simpa [closed] using hopen) hs

end Balance

namespace Written

open Text Balance

/-- A constructor initializer, such as `: base(x, y)`, with the blanks around its parts. The
parentheses of the arguments are closed by their last character and not before, and the arguments
leave no brace open. -/
structure Initializer where
  before : Blanks
  afterColon : Blanks
  keyword : Text
  isWord : ∀ c ∈ keyword, isWord c = true
  afterKeyword : Blanks
  arguments : Text
  opens : arguments.head? = some '('
  closes : arguments.closing? = some (arguments.length - 1)
  brace_eq : (withoutAngles.run arguments).depths.brace = 0
  behind : Blanks

namespace Initializer

variable (x : Initializer)

/-- What stands in front of the arguments. -/
def lead : Text := x.before.1 ++ ':' :: (x.afterColon.1 ++ x.keyword ++ x.afterKeyword.1)

def text : Text := x.lead ++ (x.arguments ++ x.behind.1)

theorem isNeutral_of_mem_blanks (w : Blanks) : ∀ c ∈ w.1, isNeutral c = true ∧ c ≠ ';' := by
  intro c hc
  have hblank := allBlank_iff.mp w.2 c hc
  exact ⟨isNeutral_of_isBlank hblank, ne_of_isBlank hblank (by decide)⟩

theorem isNeutral_of_mem_lead : ∀ c ∈ x.lead, isNeutral c = true ∧ c ≠ ';' := by
  intro c hc
  simp only [lead, List.mem_append, List.mem_cons] at hc
  rcases hc with hc | rfl | (hc | hc) | hc
  · exact isNeutral_of_mem_blanks _ c hc
  · decide
  · exact isNeutral_of_mem_blanks _ c hc
  · have hword := x.isWord c hc
    refine ⟨isNeutral_of_qualified (.inl (by rw [isNamePart, hword, Bool.true_or])), ?_⟩
    rintro rfl
    exact absurd hword (by decide)
  · exact isNeutral_of_mem_blanks _ c hc

/-- The arguments are an opener, what is inside, and the closer of the opener. -/
theorem exists_arguments : ∃ s, x.arguments = '(' :: (s ++ [')']) ∧
    fresh.afterStop? (closed .paren) x.arguments = some [] ∧
    (fresh.run ('(' :: s)).isCode ')' = true := by
  obtain ⟨t, ht⟩ := List.head?_eq_some_iff.mp x.opens
  have hclosing : fresh.stopOffset? (closed .paren) x.arguments =
      some (x.arguments.length - 1) := by
    have hcloses := x.closes
    rwa [ht, closing?, ← ht] at hcloses
  have hstop : fresh.afterStop? (closed .paren) x.arguments = some [] := by
    rw [afterStop?_eq_map, hclosing, Option.map_some, List.drop_of_length_le (by omega)]
  have hcut := hstop
  rw [ht] at hcut
  obtain ⟨s, rfl, hcode⟩ := exists_closer rfl hcut
  exact ⟨s, ht, hstop, hcode⟩

theorem mode_run_arguments : (fresh.run x.arguments).lexer.mode = .code .plain := by
  obtain ⟨s, hs, -, hcode⟩ := x.exists_arguments
  rw [hs, ← List.cons_append, run_append, run_cons, run_nil, step_lexer]
  exact (Lexer.mode_step_of_isCode rfl hcode).1

private theorem atTop_run_arguments : (withoutAngles.run x.arguments).atTop = true := by
  obtain ⟨-, -, hstop, -⟩ := x.exists_arguments
  rw [← afterStop?_closed_withoutAngles (by decide)] at hstop
  obtain ⟨u, d, hu, -, hd⟩ := afterStop?_eq_some_iff.mp hstop
  rw [closed, beq_iff_eq] at hd
  refine (atTop_withoutAngles_iff _).mpr ⟨?_, x.brace_eq⟩
  rw [hu, run_append]
  exact hd

private theorem opening?_arguments (t : Text) : withoutAngles.opening? (x.arguments ++ t) =
    (withoutAngles.run x.arguments).opening? t := by
  obtain ⟨s, hs, hstop, -⟩ := x.exists_arguments
  rw [← afterStop?_closed_withoutAngles (by decide), hs, afterStop?, if_neg (by decide)] at hstop
  rw [hs, List.cons_append, opening?]
  exact opening?_of_open (by decide) hstop t

private theorem opening?_text {r : Text} {o : Opener} (hr : Opener.read? r = some o) :
    withoutAngles.opening? (x.text ++ r) = some (o, r) := by
  have hmode : (withoutAngles.run x.arguments).lexer.mode = .code .plain := by
    rw [lexer_run_withoutAngles, x.mode_run_arguments]
  obtain ⟨d, r, rfl, -, -⟩ := Opener.exists_cons_of_read? hr
  have hout : (withoutAngles.run x.arguments).isOutermost d = true := by
    rw [isOutermost, x.atTop_run_arguments, isCode_of_read? hmode hr, Bool.and_true]
  rw [text, List.append_assoc, opening?_of_isNeutral rfl x.isNeutral_of_mem_lead,
    List.append_assoc, x.opening?_arguments, opening?_of_isNeutral hmode
    (isNeutral_of_mem_blanks _), opening?, if_pos hout, hr]

private theorem isFirst_of_text {t r : Text} {start : Nat} {o : Opener}
    (ht : t.drop start = x.text ++ r) (hr : Opener.read? r = some o) :
    IsFirst (OpensBodyAt t start) (start + x.text.length) o := by
  have hfound := findSome?_stops withoutAngles start (x.text ++ r)
  rw [x.opening?_text hr] at hfound
  have hoffset : (start : Int) + ((x.text ++ r).length - r.length : Int) =
      ((start + x.text.length : Nat) : Int) := by
    rw [List.length_append]
    omega
  rw [Option.map_some, hoffset] at hfound
  rw [← IsFirst.add_iff fun i o h ↦ h.le]
  refine (IsFirst.congr fun j o ↦ ?_).mp (findSome?_stops_eq_some_iff.mp hfound)
  rw [← opensAt_withoutAngles_iff, ht]

/-- The angle brackets that are open behind an initializer are those that its arguments leave
open. -/
theorem angleDepth_of_text {t r : Text} {start : Nat} (ht : t.drop start = x.text ++ r) :
    angleDepth t start (start + x.text.length) = (fresh.run x.arguments).depths.angle := by
  have hlead := run_fresh fun c hc ↦ (x.isNeutral_of_mem_lead c hc).1
  have hbehind := run_of_isNeutral x.mode_run_arguments fun c hc ↦
    (isNeutral_of_mem_blanks x.behind c hc).1
  rw [angleDepth, drop_take_add, ht, List.take_left, text, run_append, hlead, run_append, hbehind]

end Initializer

end Written

namespace Text

open Balance

/-- **The search for the opener of a body** always comes to an answer. It finds the first place at
which an opener stands in code with no parenthesis, brace or angle bracket open, and nothing only if
there is none. So the opener that comes first with angle brackets left out, as they are when the end
of the body is looked for, is found exactly if no angle bracket is open in front of it. In
particular the body of a constructor is found behind an initializer, whatever its arguments are,
exactly if they leave no angle bracket open. -/
theorem firstOpener?_agrees (t : Text) (start : Nat) :
    (∃ found, t.firstOpener? start = .ok found ∧
      (∀ (i : Nat) o, found = some ((i : Int), o) ↔
        IsFirst (fun i o ↦ OpensBodyAt t start i o ∧ angleDepth t start i = 0) i o) ∧
      (found = none ↔ ∀ i o, OpensBodyAt t start i o → angleDepth t start i ≠ 0) ∧
      ∀ (i : Nat) o, IsFirst (OpensBodyAt t start) i o →
        (found = some ((i : Int), o) ↔ angleDepth t start i = 0)) ∧
    ∀ (x : Written.Initializer) (r : Text) (o : Opener), t.drop start = x.text ++ r →
      Opener.read? r = some o →
        (t.firstOpener? start = .ok (some (((start + x.text.length : Nat) : Int), o)) ↔
          (fresh.run x.arguments).depths.angle = 0) := by
  constructor
  · obtain ⟨found, hfound⟩ : ∃ found, t.firstOpener? start = .ok found :=
      ⟨_, firstOpener?_eq t start⟩
    refine ⟨found, hfound, fun i o ↦ ?_, ?_, fun i o hfirst ↦ ?_⟩
    · rw [← firstOpener?_eq_some_iff, hfound, Except.ok.injEq]
    · rw [← firstOpener?_eq_none_iff, hfound, Except.ok.injEq]
    · rw [← firstOpener?_iff_of_isFirst hfirst, hfound, Except.ok.injEq]
  · intro x r o ht hr
    rw [firstOpener?_iff_of_isFirst (x.isFirst_of_text ht hr), x.angleDepth_of_text ht]

/-- An initializer whose arguments hold a generic type and a lambda expression. -/
def genericInitializer : Written.Initializer where
  before := ⟨" ".toList, by decide⟩
  afterColon := ⟨" ".toList, by decide⟩
  keyword := "base".toList
  isWord := List.all_eq_true.mp (by decide)
  afterKeyword := ⟨[], rfl⟩
  arguments := "(new List<int>(), x => x \x7b \x7d)".toList
  opens := rfl
  closes := by decide
  brace_eq := by decide
  behind := ⟨" ".toList, by decide⟩

def genericConstructor : Text :=
  "Foo() : base(new List<int>(), x => x \x7b \x7d) \x7b \x7d".toList

theorem firstOpener?_agrees_genericInitializer :
    genericConstructor.drop 5 = genericInitializer.text ++ "\x7b \x7d".toList ∧
      Opener.read? "\x7b \x7d".toList = some .brace ∧
      (fresh.run genericInitializer.arguments).depths.angle = 0 ∧
      genericConstructor.firstOpener? 5 = .ok (some (42, .brace)) := by
  have htext : genericConstructor.drop 5 = genericInitializer.text ++ "\x7b \x7d".toList := by
    decide
  have hread : Opener.read? "\x7b \x7d".toList = some .brace := rfl
  have hangle : (fresh.run genericInitializer.arguments).depths.angle = 0 := by decide
  exact ⟨htext, hread, hangle,
    ((firstOpener?_agrees genericConstructor 5).2 _ _ _ htext hread).mpr hangle⟩

/-- What follows the parameters of a constructor that hands on a comparison. -/
def comparison : Text := " : base(a < b) \x7b \x7d".toList

/-- A comparison among the arguments of an initializer hides the body behind it: with angle brackets
left out the body opens at its brace, but the search finds nothing, and neither does a scan of the
constructor. -/
theorem firstOpener?_comparison :
    IsFirst (OpensBodyAt comparison 0) 15 .brace ∧ comparison.firstOpener? 0 = .ok none ∧
      Document.member? (.live ("public Foo(int a, int b)".toList ++ comparison)) "public".toList 0 =
        .ok none := by
  refine ⟨?_, by decide, by decide +kernel⟩
  have hfound : (withoutAngles.stops (0 : Nat) comparison).findSome? openerAt? =
      some (((0 + 15 : Nat) : Int), Opener.brace) := by decide
  rw [← Nat.zero_add 15, ← IsFirst.add_iff fun i o h ↦ h.le]
  exact (IsFirst.congr fun _ _ ↦ opensAt_withoutAngles_iff).mp
    (findSome?_stops_eq_some_iff.mp hfound)

end Text

end CSharpOutline
