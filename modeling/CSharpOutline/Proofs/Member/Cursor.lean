import CSharpOutline.Member.Locate
import CSharpOutline.Proofs.Member.InRange

/-!
# The lines of a member that the cursor can be on

A public member is reported from the line it is declared on down to its last line, or to the line in
front of the next public one if that comes first (`Editor.Reports`). There the answer is the block
that the scan finds at its line, and no other cursor gets an answer
(`Editor.memberAtCursor?_reports`).

The search starts at the cursor or at the last line, whichever comes first, while the block is asked
for the cursor itself. The two do not disagree, because a block ends inside the document
(`Document.span_of_member?`): a cursor past the last line is in no block.
-/

namespace CSharpOutline

/-! ## Public lines -/

/-- The line with a number is there and has the word `public`. -/
def IsPublicAt (lines : List Text) (i : Nat) : Prop := lines[i]?.any Text.declaresPublic = true

instance (lines : List Text) : DecidablePred (IsPublicAt lines) := fun _ ↦
  inferInstanceAs (Decidable (_ = true))

theorem IsPublicAt.lt_length {lines : List Text} {i : Nat} (h : IsPublicAt lines i) :
    i < lines.length := by
  obtain ⟨t, ht, -⟩ := (Option.any_eq_true _ _).mp h
  exact (List.getElem?_eq_some_iff.mp ht).1

theorem lastPublic?_eq_some_iff {lines : List Text} {n s : Nat} :
    lastPublic? lines n = some s ↔
      s < n ∧ IsPublicAt lines s ∧ ∀ i, s < i → i < n → ¬ IsPublicAt lines i := by
  induction n with
  | zero => simp [lastPublic?]
  | succ n ih =>
    rw [lastPublic?]
    split
    · next hn =>
      constructor
      · intro h
        obtain rfl : n = s := Option.some.inj h
        exact ⟨Nat.lt_succ_self n, hn, fun i hlo hhi ↦ by omega⟩
      · rintro ⟨hlt, -, hlast⟩
        rcases Nat.lt_succ_iff_lt_or_eq.mp hlt with hs | rfl
        · exact absurd hn (hlast n hs (Nat.lt_succ_self n))
        · rfl
    · next hn =>
      rw [ih]
      constructor
      · rintro ⟨hlt, hpublic, hlast⟩
        refine ⟨by omega, hpublic, fun i hlo hhi ↦ ?_⟩
        rcases Nat.lt_succ_iff_lt_or_eq.mp hhi with hi | rfl
        · exact hlast i hlo hi
        · exact hn
      · rintro ⟨hlt, hpublic, hlast⟩
        have hne : s ≠ n := by
          rintro rfl
          exact hn hpublic
        exact ⟨by omega, hpublic, fun i hlo hhi ↦ hlast i hlo (by omega)⟩

/-- The number of the first public line behind a line. -/
def nextPublic? (lines : List Text) (s : Nat) : Option Nat :=
  ((lines.drop (s + 1)).findIdx? Text.declaresPublic).map (s + 1 + ·)

private theorem forall_lt_nextPublic?_iff {lines : List Text} {s c : Nat} :
    (∀ q ∈ nextPublic? lines s, c < q) ↔ ∀ i, s < i → i ≤ c → ¬ IsPublicAt lines i := by
  have hat : ∀ i, s < i → (IsPublicAt lines i ↔
      (lines.drop (s + 1))[i - (s + 1)]?.any Text.declaresPublic = true) := by
    intro i hi
    rw [IsPublicAt, List.getElem?_drop, Nat.add_sub_cancel' hi]
  rw [nextPublic?]
  cases hfound : (lines.drop (s + 1)).findIdx? Text.declaresPublic with
  | none =>
    rw [List.findIdx?_eq_none_iff] at hfound
    refine ⟨fun _ i hlo _ hpublic ↦ ?_, fun _ q hq ↦ by simp at hq⟩
    obtain ⟨t, ht, hword⟩ := (Option.any_eq_true _ _).mp ((hat i hlo).mp hpublic)
    rw [hfound t (List.mem_of_getElem? ht)] at hword
    exact absurd hword (by decide)
  | some k =>
    obtain ⟨hk, hword, hbefore⟩ := List.findIdx?_eq_some_iff_getElem.mp hfound
    simp only [Option.map_some, Option.mem_some, forall_eq']
    constructor
    · intro hlt i hlo hhi hpublic
      rw [hat i hlo, List.getElem?_eq_getElem (by omega), Option.any_some] at hpublic
      exact hbefore (i - (s + 1)) (by omega) hpublic
    · intro hnone
      refine Nat.lt_of_not_le fun hle ↦ hnone (s + 1 + k) (by omega) hle ?_
      rw [hat _ (by omega), Nat.add_sub_cancel_left, List.getElem?_eq_getElem hk, Option.any_some]
      exact hword

/-! ## Blocks and the document

The search looks at the member of one line only, the last public one up to the cursor. That line
stays the last public one for every cursor down to the next public line, and the block decides which
of these cursors it contains. -/

namespace Editor

/-- A cursor on line `c` is in the block `b` of the member declared at line `s`, and in front of the
next public line. -/
structure Reports (lines : List Text) (s : Nat) (b : Block) (c : Nat) : Prop where
  le : s ≤ c
  le_endLine : c ≤ b.endLine
  lt_next : ∀ q ∈ nextPublic? lines s, c < q

/-- The search at the cursor looks at the member of one public line, the last one up to the cursor.
-/
theorem memberAtCursor?_eq (e : Editor) :
    e.memberAtCursor? =
      match lastPublic? e.document.toSnapshot.lines
        (min (e.cursor.line + 1) e.document.toSnapshot.size) with
      | none => .ok none
      | some s => (e.document.member? "public".toList s).map
          fun found ↦ found.filter (·.contains e.cursor.line) := rfl

theorem exists_memberAtCursor? (e : Editor) : ∃ found, e.memberAtCursor? = .ok found := by
  rw [memberAtCursor?_eq]
  split
  · exact ⟨none, rfl⟩
  · next s hs =>
    obtain ⟨-, hpublic, -⟩ := lastPublic?_eq_some_iff.mp hs
    obtain ⟨found, hfound⟩ := e.document.exists_member? "public".toList hpublic.lt_length
    rw [hfound]
    exact ⟨_, rfl⟩

private theorem lastPublic?_cursor_iff {lines : List Text} {s c : Nat} :
    lastPublic? lines (min (c + 1) lines.length) = some s ↔
      IsPublicAt lines s ∧ s ≤ c ∧ ∀ q ∈ nextPublic? lines s, c < q := by
  rw [lastPublic?_eq_some_iff, forall_lt_nextPublic?_iff]
  constructor
  · rintro ⟨hlt, hpublic, hlast⟩
    refine ⟨hpublic, by omega, fun i hlo hhi hi ↦ hlast i hlo ?_ hi⟩
    have hlength := hi.lt_length
    omega
  · rintro ⟨hpublic, hle, hlast⟩
    have hlength := hpublic.lt_length
    exact ⟨by omega, hpublic, fun i hlo hhi ↦ hlast i hlo (by omega)⟩

/-- What is found at the cursor is what a scan finds at a public line whose member reports the
cursor. -/
theorem memberAtCursor?_eq_some_iff (e : Editor) (b : Block) :
    e.memberAtCursor? = .ok (some b) ↔
      ∃ s, IsPublicAt e.document.toSnapshot.lines s ∧
        e.document.member? "public".toList s = .ok (some b) ∧
        Reports e.document.toSnapshot.lines s b e.cursor.line := by
  rw [memberAtCursor?_eq, Snapshot.size]
  constructor
  · intro h
    split at h
    · simp at h
    · next s hs =>
      obtain ⟨hpublic, hle, hnext⟩ := lastPublic?_cursor_iff.mp hs
      obtain ⟨found, hfound⟩ := e.document.exists_member? "public".toList hpublic.lt_length
      rw [hfound, Except.map, Except.ok.injEq, Option.filter_eq_some_iff] at h
      obtain ⟨rfl, hcontains⟩ := h
      have hend : (e.cursor.line : Int) ≤ b.endLine := by
        simp only [Block.contains, Bool.and_eq_true, decide_eq_true_eq] at hcontains
        exact hcontains.2
      exact ⟨s, hpublic, hfound, hle, hend, hnext⟩
  · rintro ⟨s, hpublic, hfound, hle, hend, hnext⟩
    have hlast := lastPublic?_cursor_iff.mpr ⟨hpublic, hle, hnext⟩
    have hcontains : b.contains e.cursor.line = true := by
      simp only [Block.contains, Bool.and_eq_true, decide_eq_true_eq,
        (Document.span_of_member? hfound).1]
      omega
    rw [hlast]
    dsimp only
    rw [hfound, Except.map, Option.filter_some, if_pos hcontains]

private theorem member?_of_memberAtCursor? {e : Editor} {s : Nat} {b : Block}
    (h : e.memberAtCursor? = .ok (some b)) (hs : b.startLine = s) :
    e.document.member? "public".toList s = .ok (some b) ∧
      Reports e.document.toSnapshot.lines s b e.cursor.line := by
  obtain ⟨s', -, hmember, hreports⟩ := (memberAtCursor?_eq_some_iff e b).mp h
  obtain rfl : s' = s := by
    have hspan := (Document.span_of_member? hmember).1
    omega
  exact ⟨hmember, hreports⟩

private theorem memberAtCursor?_eq_none {e : Editor}
    (h : ∀ s b, IsPublicAt e.document.toSnapshot.lines s →
      e.document.member? "public".toList s = .ok (some b) →
      ¬ Reports e.document.toSnapshot.lines s b e.cursor.line) :
    e.memberAtCursor? = .ok none := by
  obtain ⟨found, hfound⟩ := e.exists_memberAtCursor?
  cases found with
  | none => exact hfound
  | some b =>
    obtain ⟨s, hpublic, hmember, hreports⟩ := (memberAtCursor?_eq_some_iff e b).mp hfound
    exact absurd hreports (h s b hpublic hmember)

/-- A public member is reported for the cursors from its line down to its end or to the next public
line, with the block that the scan finds, and no other cursor gets an answer. -/
theorem memberAtCursor?_reports (d : Document) :
    (∀ s, IsPublicAt d.toSnapshot.lines s →
      (∀ b, d.member? "public".toList s = .ok (some b) → ∀ cursor : Cursor,
        ((∃ b', memberAtCursor? ⟨d, cursor⟩ = .ok (some b') ∧ b'.startLine = s) ↔
          Reports d.toSnapshot.lines s b cursor.line) ∧
        (Reports d.toSnapshot.lines s b cursor.line →
          memberAtCursor? ⟨d, cursor⟩ = .ok (some b))) ∧
      (d.member? "public".toList s = .ok none → ∀ cursor : Cursor,
        ¬ ∃ b', memberAtCursor? ⟨d, cursor⟩ = .ok (some b') ∧ b'.startLine = s)) ∧
    (∀ cursor : Cursor,
      (∀ s b, IsPublicAt d.toSnapshot.lines s → d.member? "public".toList s = .ok (some b) →
        ¬ Reports d.toSnapshot.lines s b cursor.line) →
      memberAtCursor? ⟨d, cursor⟩ = .ok none) ∧
    ∀ cursor : Cursor, d.toSnapshot.lines.length ≤ cursor.line →
      memberAtCursor? ⟨d, cursor⟩ = .ok none := by
  refine ⟨fun s hpublic ↦ ⟨fun b hmember cursor ↦ ?_, ?_⟩,
    fun cursor h ↦ memberAtCursor?_eq_none h,
    fun cursor hpast ↦ memberAtCursor?_eq_none fun s b _ hmember hreports ↦ ?_⟩
  · have hreported (h : Reports d.toSnapshot.lines s b cursor.line) :
        memberAtCursor? ⟨d, cursor⟩ = .ok (some b) :=
      (memberAtCursor?_eq_some_iff ⟨d, cursor⟩ b).mpr ⟨s, hpublic, hmember, h⟩
    refine ⟨⟨?_, fun h ↦ ⟨b, hreported h, (Document.span_of_member? hmember).1⟩⟩, hreported⟩
    rintro ⟨b', hfound, hline⟩
    obtain ⟨hmember', hreports⟩ := member?_of_memberAtCursor? hfound hline
    obtain rfl : b = b' := Option.some.inj (Except.ok.inj (hmember.symm.trans hmember'))
    exact hreports
  · rintro hnone cursor ⟨b', hfound, hline⟩
    obtain ⟨hmember, -⟩ := member?_of_memberAtCursor? hfound hline
    exact absurd (hnone.symm.trans hmember) (by simp)
  · have hlast : b.endLine < d.toSnapshot.lines.length := (Document.span_of_member? hmember).2.2
    have hend : (cursor.line : Int) ≤ b.endLine := hreports.le_endLine
    omega

/-- A method with a public line inside its body. -/
def nestedPublic : Document :=
  .live "public void F() \x7b\n  public int G() => 1;\n\x7d\n".toList

theorem memberAtCursor?_reports_nestedPublic :
    IsPublicAt nestedPublic.toSnapshot.lines 0 ∧
    nestedPublic.member? "public".toList 0 =
      .ok (some ⟨.method, 0, 2, "public void F()".toList⟩) ∧
    memberAtCursor? ⟨nestedPublic, ⟨0, 7⟩⟩ =
      .ok (some ⟨.method, 0, 2, "public void F()".toList⟩) ∧
    (¬ ∃ b, memberAtCursor? ⟨nestedPublic, ⟨2, 0⟩⟩ = .ok (some b) ∧ b.startLine = (0 : Nat)) ∧
    memberAtCursor? ⟨nestedPublic, ⟨4, 0⟩⟩ = .ok none := by
  have hpublic : IsPublicAt nestedPublic.toSnapshot.lines 0 := by decide
  have hnext : nextPublic? nestedPublic.toSnapshot.lines 0 = some 1 := by decide
  have hmember : nestedPublic.member? "public".toList (0 : Nat) =
      .ok (some ⟨.method, 0, 2, "public void F()".toList⟩) := by decide +kernel
  obtain ⟨hmembers, -, hpast⟩ := memberAtCursor?_reports nestedPublic
  have hcursors := (hmembers 0 hpublic).1 _ hmember
  refine ⟨hpublic, hmember, (hcursors ⟨0, 7⟩).2 ⟨by decide, by decide, ?_⟩, ?_,
    hpast ⟨4, 0⟩ (by decide)⟩
  · simp [hnext]
  · rw [(hcursors ⟨2, 0⟩).1]
    exact fun h ↦ absurd (h.lt_next 1 hnext) (by decide)

end Editor

end CSharpOutline
