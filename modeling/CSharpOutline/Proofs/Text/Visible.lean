import CSharpOutline.Text.Word
import Mathlib.Data.List.Basic

/-!
# What blanks do not change

Trimming, collapsing and joining move blanks about and leave everything else where it is. The
*visible* part of a text, its characters that are not blank, says so in one equation each: whatever
is done to the blanks, the visible part is the same.

A text is *trimmed* when no blank stands at either end, and *spaced* when in addition its blanks
are single spaces. Trimming gives a trimmed text and collapsing a spaced one; conversely a text is
its trimmed form between two runs of blanks, and it is enough to exhibit such runs to know what
trimming gives (`trim_append`).
-/

namespace CSharpOutline.Text

/-- The characters of a text that are not blank. -/
def visible (t : Text) : Text := t.filter fun c ↦ !isBlank c

/-- No blank stands at either end of a text. -/
structure IsTrimmed (t : Text) : Prop where
  head : ∀ c, t.head? = some c → isBlank c = false
  last : ∀ c, t.getLast? = some c → isBlank c = false

/-- No blank stands at either end of a text, and each run of blanks in it is a single space. -/
structure IsSpaced (t : Text) : Prop extends IsTrimmed t where
  /-- A blank inside is a space, and what follows it is not blank. -/
  single : ∀ u c d v, t = u ++ c :: d :: v → isBlank c = true → c = ' ' ∧ isBlank d = false

/-! ## Blanks -/

@[simp] theorem allBlank_nil : allBlank [] = true := rfl

@[simp] theorem allBlank_cons (c : Char) (t : Text) :
    allBlank (c :: t) = (isBlank c && allBlank t) := rfl

@[simp] theorem allBlank_append (s t : Text) :
    allBlank (s ++ t) = (allBlank s && allBlank t) := List.all_append

theorem allBlank_iff {t : Text} : t.allBlank = true ↔ ∀ c ∈ t, isBlank c = true := by
  rw [allBlank, List.all_eq_true]

@[simp] theorem visible_nil : visible [] = [] := rfl

@[simp] theorem visible_append (s t : Text) : visible (s ++ t) = visible s ++ visible t :=
  List.filter_append s t

theorem visible_cons {c : Char} (hc : isBlank c = false) (t : Text) :
    visible (c :: t) = c :: visible t := by
  simp [visible, hc]

theorem visible_of_allBlank {t : Text} (h : t.allBlank = true) : visible t = [] := by
  rw [visible, List.filter_eq_nil_iff]
  intro c hc
  rw [allBlank_iff.mp h c hc]
  decide

theorem allBlank_of_visible {t : Text} (h : visible t = []) : t.allBlank = true := by
  rw [allBlank_iff]
  intro c hc
  rw [visible, List.filter_eq_nil_iff] at h
  simpa using h c hc

theorem visible_eq_self {t : Text} (h : ∀ c ∈ t, isBlank c = false) : visible t = t := by
  rw [visible, List.filter_eq_self]
  intro c hc
  rw [h c hc]
  rfl

/-! ## Trimming the start -/

theorem dropWhile_of_head {p : Char → Bool} {t : Text} (h : t.head?.any p = false) :
    t.dropWhile p = t := by
  cases t with
  | nil => rfl
  | cons c t => exact List.dropWhile_cons_of_neg (by simpa using h)

theorem trimStart_of_head {t : Text} (h : ∀ c, t.head? = some c → isBlank c = false) :
    trimStart t = t := by
  cases t with
  | nil => rfl
  | cons c t =>
    have hc : isBlank c = false := h c rfl
    rw [trimStart, List.dropWhile_cons, hc, if_neg (by decide)]

theorem trimStart_cons {c : Char} (hc : isBlank c = false) (t : Text) :
    trimStart (c :: t) = c :: t := by
  refine trimStart_of_head fun d hd ↦ ?_
  rw [← Option.some.inj hd]
  exact hc

theorem trimStart_cons_of_isBlank {c : Char} (hc : isBlank c = true) (t : Text) :
    trimStart (c :: t) = trimStart t := by
  rw [trimStart, List.dropWhile_cons_of_pos hc, trimStart]

theorem head?_trimStart {t : Text} {c : Char} (h : (trimStart t).head? = some c) :
    isBlank c = false := by
  have hne := List.head?_dropWhile_not isBlank t
  rw [trimStart] at h
  rw [h] at hne
  simpa using hne

@[simp] theorem trimStart_trimStart (t : Text) : trimStart (trimStart t) = trimStart t :=
  trimStart_of_head fun _ hc ↦ head?_trimStart hc

theorem trimStart_allBlank_append {b : Text} (h : b.allBlank = true) (t : Text) :
    trimStart (b ++ t) = trimStart t := by
  rw [trimStart, List.dropWhile_append_of_pos (allBlank_iff.mp h), trimStart]

theorem trimStart_append_of_ne_nil {s : Text} (h : trimStart s ≠ []) (t : Text) :
    trimStart (s ++ t) = trimStart s ++ t := by
  rw [trimStart, List.dropWhile_append]
  rw [trimStart] at h
  simp [h, trimStart]

theorem trimStart_eq_nil_iff {t : Text} : trimStart t = [] ↔ t.allBlank = true := by
  induction t with
  | nil => simp [trimStart]
  | cons c t ih =>
    rw [trimStart] at ih ⊢
    rw [List.dropWhile_cons, allBlank_cons]
    by_cases hc : isBlank c = true
    · rw [if_pos hc, ih, hc, Bool.true_and]
    · simp [hc]

/-- A visible character stays with what follows it. -/
theorem trimStart_append_cons (u : Text) {d : Char} (hd : isBlank d = false) (v : Text) :
    trimStart (u ++ d :: v) = trimStart u ++ d :: v := by
  by_cases hu : trimStart u = []
  · rw [trimStart_allBlank_append (trimStart_eq_nil_iff.mp hu), trimStart_cons hd, hu]
    rfl
  · exact trimStart_append_of_ne_nil hu _

/-- A text is a run of blanks followed by what trimming its start leaves. -/
theorem exists_eq_append_trimStart (t : Text) :
    ∃ b : Text, b.allBlank = true ∧ t = b ++ trimStart t := by
  refine ⟨t.takeWhile isBlank, ?_, ?_⟩
  · rw [allBlank]
    exact List.all_takeWhile
  · exact List.takeWhile_append_dropWhile.symm

theorem getLast?_of_suffix {r t : Text} (h : r <:+ t) (hne : r ≠ []) :
    r.getLast? = t.getLast? := by
  obtain ⟨p, rfl⟩ := h
  rw [List.getLast?_append_of_ne_nil p hne]

theorem trimStart_suffix (t : Text) : trimStart t <:+ t := List.dropWhile_suffix _

@[simp] theorem visible_trimStart (t : Text) : visible (trimStart t) = visible t := by
  obtain ⟨b, hb, ht⟩ := exists_eq_append_trimStart t
  conv => rhs; rw [ht, visible_append, visible_of_allBlank hb, List.nil_append]

/-! ## Trimming both ends

A text is what trimming leaves between two runs of blanks, and this settles what trimming leaves. A
visible character is kept with all that stands in front of it but the blanks at the start. -/

theorem trimEnd_append_allBlank (t : Text) {b : Text} (h : b.allBlank = true) :
    trimEnd (t ++ b) = trimEnd t := by
  have hrev : ∀ c ∈ b.reverse, isBlank c = true := fun c hc ↦
    allBlank_iff.mp h c (List.mem_reverse.mp hc)
  rw [trimEnd, List.reverse_append, List.dropWhile_append_of_pos hrev, trimEnd]

theorem trimEnd_of_last {t : Text} (h : ∀ c, t.getLast? = some c → isBlank c = false) :
    trimEnd t = t := by
  have hrev := trimStart_of_head (t := t.reverse) fun c hc ↦ h c (by rwa [List.head?_reverse] at hc)
  rw [trimStart] at hrev
  rw [trimEnd, hrev, List.reverse_reverse]

theorem getLast?_trimEnd {t : Text} {c : Char} (h : (trimEnd t).getLast? = some c) :
    isBlank c = false := by
  rw [trimEnd, List.getLast?_reverse] at h
  exact head?_trimStart h

theorem exists_eq_trimEnd_append (t : Text) :
    ∃ b : Text, b.allBlank = true ∧ t = trimEnd t ++ b := by
  obtain ⟨b, hb, ht⟩ := exists_eq_append_trimStart t.reverse
  refine ⟨b.reverse, ?_, ?_⟩
  · rw [allBlank, List.all_reverse]
    exact hb
  · rw [trimEnd, ← List.reverse_append, ← trimStart, ← ht, List.reverse_reverse]

/-- A trimmed text between two runs of blanks is what trimming leaves. -/
theorem trim_append {b m e : Text} (hb : b.allBlank = true) (hm : m.IsTrimmed)
    (he : e.allBlank = true) : trim (b ++ m ++ e) = m := by
  rw [trim, List.append_assoc, trimStart_allBlank_append hb]
  by_cases hnil : m = []
  · rw [hnil, List.nil_append, trimStart_eq_nil_iff.mpr he]
    rfl
  · rw [trimStart_append_of_ne_nil (by rwa [trimStart_of_head hm.head]),
      trimStart_of_head hm.head, trimEnd_append_allBlank m he, trimEnd_of_last hm.last]

theorem IsTrimmed.trim_eq {t : Text} (h : t.IsTrimmed) : trim t = t := by
  rw [trim, trimStart_of_head h.head, trimEnd_of_last h.last]

/-- Trimming leaves a trimmed text, and takes a run of blanks from either end. -/
theorem exists_eq_append_trim (t : Text) : ∃ b e : Text,
    b.allBlank = true ∧ e.allBlank = true ∧ (trim t).IsTrimmed ∧ t = b ++ trim t ++ e := by
  obtain ⟨b, hb, ht⟩ := exists_eq_append_trimStart t
  obtain ⟨e, he, hs⟩ := exists_eq_trimEnd_append (trimStart t)
  refine ⟨b, e, hb, he, ⟨?_, fun c hc ↦ getLast?_trimEnd hc⟩, ?_⟩
  · intro c hc
    refine head?_trimStart (t := t) ?_
    rw [hs, List.head?_append, ← trim, hc]
    rfl
  · rw [trim, List.append_assoc, ← hs]
    exact ht

theorem isTrimmed_trim (t : Text) : (trim t).IsTrimmed := by
  obtain ⟨_, _, _, _, h, _⟩ := exists_eq_append_trim t
  exact h

@[simp] theorem visible_trim (t : Text) : visible (trim t) = visible t := by
  obtain ⟨b, e, hb, he, -, ht⟩ := exists_eq_append_trim t
  conv => rhs; rw [ht, visible_append, visible_append, visible_of_allBlank hb,
    visible_of_allBlank he, List.nil_append, List.append_nil]

theorem head?_trim (t : Text) : (trim t).head? = (visible t).head? := by
  rw [← visible_trim]
  cases h : trim t with
  | nil => rfl
  | cons c r =>
    rw [visible_cons ((isTrimmed_trim t).head c (by rw [h]; rfl))]
    rfl

theorem getLast?_visible {t : Text} {c : Char} (h : t.getLast? = some c) (hc : isBlank c = false) :
    (visible t).getLast? = some c := by
  obtain ⟨s, rfl⟩ := List.getLast?_eq_some_iff.mp h
  rw [visible_append, visible_cons hc, visible_nil, List.getLast?_concat]

theorem IsTrimmed.getLast?_visible {t : Text} (h : t.IsTrimmed) :
    (visible t).getLast? = t.getLast? := by
  cases hlast : t.getLast? with
  | none =>
    rw [List.getLast?_eq_none_iff.mp hlast]
    rfl
  | some c => exact Text.getLast?_visible hlast (h.last c hlast)

theorem exists_trimEnd_eq (u : Text) {d : Char} (hd : isBlank d = false) (v : Text) :
    ∃ v', trimEnd (u ++ d :: v) = u ++ d :: v' := by
  obtain ⟨e, he, hend⟩ := exists_eq_trimEnd_append (u ++ d :: v)
  have hblank : d ∉ e := by
    intro hmem
    rw [allBlank_iff.mp he d hmem] at hd
    exact absurd hd (by decide)
  rcases List.append_eq_append_iff.mp hend with ⟨m, hm, hrest⟩ | ⟨m, -, hrest⟩
  · cases m with
    | nil =>
      rw [List.nil_append] at hrest
      exact absurd (by rw [← hrest]; exact List.mem_cons_self) hblank
    | cons c m =>
      obtain ⟨rfl, -⟩ := List.cons.inj hrest
      exact ⟨m, hm⟩
  · exact absurd (by rw [hrest]; simp) hblank

theorem exists_trim_eq (u : Text) {d : Char} (hd : isBlank d = false) (v : Text) :
    ∃ v', trim (u ++ d :: v) = trimStart u ++ d :: v' := by
  rw [trim, trimStart_append_cons u hd]
  exact exists_trimEnd_eq _ hd v

theorem trim_eq_nil_iff {t : Text} : trim t = [] ↔ t.allBlank = true := by
  obtain ⟨b, e, hb, he, -, ht⟩ := exists_eq_append_trim t
  constructor
  · intro h
    rw [ht, h, List.append_nil, allBlank_append, hb, he]
    rfl
  · intro h
    rw [trim, trimStart_eq_nil_iff.mpr h]
    rfl

/-! ## Runs and collapsing

Everything about runs follows from one equation: a character outside the class separates the runs
on its left from those on its right. -/

section Runs

variable {p : Char → Bool}

theorem runs_cons_of_neg {c : Char} (h : p c = false) (t : Text) : runs p (c :: t) = runs p t := by
  rw [runs, if_neg (by rw [h]; decide)]

theorem runs_ne_nil {t : Text} (h : t.head?.any p = true) : runs p t ≠ [] := by
  cases t with
  | nil => simp at h
  | cons c t =>
    have hc : p c = true := by simpa using h
    rw [runs, if_pos hc]
    split
    · next ht => simpa using runs_ne_nil ht
    · simp

/-- A character outside the class separates runs. -/
theorem runs_append_cons (s : Text) {c : Char} (h : p c = false) (t : Text) :
    runs p (s ++ c :: t) = runs p s ++ runs p t := by
  induction s with
  | nil => rw [List.nil_append, runs_cons_of_neg h]; rfl
  | cons d s ih =>
    rw [List.cons_append]
    by_cases hd : p d = true
    · have hhead : (s ++ c :: t).head?.any p = s.head?.any p := by
        cases s with
        | nil => simp [h]
        | cons e s => rfl
      rw [runs, if_pos hd, runs, if_pos hd, hhead, ih]
      by_cases hs : s.head?.any p = true
      · obtain ⟨r, rs, hr⟩ := List.exists_cons_of_ne_nil (runs_ne_nil hs)
        rw [if_pos hs, if_pos hs, hr]
        rfl
      · rw [if_neg hs, if_neg hs]
        rfl
    · rw [runs_cons_of_neg (by simpa using hd), runs_cons_of_neg (by simpa using hd), ih]

/-- The runs of a class, put together, are the characters of the class. -/
theorem flatten_runs (t : Text) : (runs p t).flatten = t.filter p := by
  induction t with
  | nil => rfl
  | cons c t ih =>
    by_cases hc : p c = true
    · rw [runs, if_pos hc, List.filter_cons_of_pos hc, ← ih]
      by_cases ht : t.head?.any p = true
      · obtain ⟨r, rs, hr⟩ := List.exists_cons_of_ne_nil (runs_ne_nil ht)
        rw [if_pos ht, hr]
        rfl
      · rw [if_neg ht]
        rfl
    · rw [runs_cons_of_neg (by simpa using hc), List.filter_cons_of_neg hc, ih]

theorem ne_nil_of_mem_runs {t run : Text} (h : run ∈ runs p t) : run ≠ [] := by
  induction t generalizing run with
  | nil => simp [runs] at h
  | cons c t ih =>
    by_cases hc : p c = true
    · rw [runs, if_pos hc] at h
      by_cases ht : t.head?.any p = true
      · obtain ⟨r, rs, hr⟩ := List.exists_cons_of_ne_nil (runs_ne_nil ht)
        rw [if_pos ht, hr, List.modifyHead_cons] at h
        rcases List.mem_cons.mp h with rfl | h'
        · simp
        · exact ih (by rw [hr]; exact List.mem_cons_of_mem _ h')
      · rw [if_neg ht] at h
        rcases List.mem_cons.mp h with rfl | h'
        · simp
        · exact ih h'
    · rw [runs_cons_of_neg (by simpa using hc)] at h
      exact ih h

end Runs

/-- A field is not empty and holds no blank. -/
theorem mem_fields {t field : Text} (h : field ∈ t.fields) :
    field ≠ [] ∧ ∀ c ∈ field, isBlank c = false := by
  refine ⟨ne_nil_of_mem_runs h, fun c hc ↦ ?_⟩
  simpa using forall_mem_of_mem_runs h c hc

theorem IsSpaced.cons_word {f t : Text} (hf : f ≠ []) (hblank : ∀ c ∈ f, isBlank c = false)
    (ht : IsSpaced t) (hne : t ≠ []) : IsSpaced (f ++ ' ' :: t) := by
  obtain ⟨e, t, rfl⟩ := List.exists_cons_of_ne_nil hne
  refine ⟨⟨?_, ?_⟩, ?_⟩
  · intro c hc
    obtain ⟨a, f, rfl⟩ := List.exists_cons_of_ne_nil hf
    exact hblank c (by simpa [eq_comm] using Or.inl hc)
  · intro c hc
    refine ht.last c ?_
    rw [List.getLast?_append, List.getLast?_cons_cons, List.getLast?_cons, Option.some_or] at hc
    rw [List.getLast?_cons, hc]
  · intro u c d v heq hc
    -- the blank stands before, at or after the space that was put in
    rcases List.append_eq_append_iff.mp heq with ⟨u', rfl, htail⟩ | ⟨f', rfl, htail⟩
    · cases u' with
      | nil =>
        obtain ⟨rfl, hd, -⟩ : ' ' = c ∧ e = d ∧ t = v := by simpa using htail
        exact ⟨rfl, ht.head d (by rw [hd]; rfl)⟩
      | cons a u' =>
        obtain ⟨-, htail⟩ := List.cons.inj htail
        exact ht.single u' c d v htail hc
    · cases f' with
      | nil =>
        obtain ⟨rfl, rfl, -⟩ : c = ' ' ∧ d = e ∧ v = t := by simpa using htail
        exact ⟨rfl, ht.head d rfl⟩
      | cons a f' =>
        obtain ⟨rfl, -⟩ := List.cons.inj htail
        rw [hblank c (by simp)] at hc
        exact absurd hc (by decide)

theorem intercalate_ne_nil {s : Text} {f : Text} {fields : List Text} (hf : f ≠ []) :
    s.intercalate (f :: fields) ≠ [] := by
  cases fields with
  | nil => simpa using hf
  | cons g fields => simp [List.intercalate_cons_cons, hf]

theorem isSpaced_intercalate {fields : List Text}
    (h : ∀ f ∈ fields, f ≠ [] ∧ ∀ c ∈ f, isBlank c = false) :
    IsSpaced ([' '].intercalate fields) := by
  induction fields with
  | nil =>
    rw [List.intercalate_nil]
    exact ⟨⟨by simp, by simp⟩, by simp⟩
  | cons f fields ih =>
    obtain ⟨hf, hblank⟩ := h f List.mem_cons_self
    have ih := ih fun g hg ↦ h g (List.mem_cons_of_mem _ hg)
    cases fields with
    | nil =>
      rw [List.intercalate_singleton]
      refine ⟨⟨fun c hc ↦ hblank c (List.mem_of_head? hc),
        fun c hc ↦ hblank c (List.mem_of_getLast? hc)⟩, ?_⟩
      rintro u c d v rfl hc
      rw [hblank c (by simp)] at hc
      exact absurd hc (by decide)
    | cons g fields =>
      have hg := (h g (by simp)).1
      rw [List.intercalate_cons_cons, List.append_assoc, List.singleton_append]
      exact ih.cons_word hf hblank (intercalate_ne_nil hg)

theorem isSpaced_collapse (t : Text) : IsSpaced (collapse t) :=
  isSpaced_intercalate fun _ hf ↦ mem_fields hf

theorem visible_intercalate {fields : List Text}
    (h : ∀ f ∈ fields, ∀ c ∈ f, isBlank c = false) :
    visible ([' '].intercalate fields) = fields.flatten := by
  induction fields with
  | nil => rfl
  | cons f fields ih =>
    have hf := visible_eq_self (h f List.mem_cons_self)
    have ih := ih fun g hg ↦ h g (List.mem_cons_of_mem _ hg)
    cases fields with
    | nil => rw [List.intercalate_singleton, hf, List.flatten_singleton]
    | cons g fields =>
      rw [List.intercalate_cons_cons, visible_append, visible_append, hf, ih,
        visible_of_allBlank (by decide), List.append_nil]
      rfl

/-- Collapsing keeps everything but blanks. -/
@[simp] theorem visible_collapse (t : Text) : visible (collapse t) = visible t := by
  rw [collapse, visible_intercalate fun f hf ↦ (mem_fields hf).2, fields, flatten_runs]
  rfl

theorem collapse_ne_nil {t : Text} (h : visible t ≠ []) : collapse t ≠ [] := by
  intro hnil
  rw [← visible_collapse, hnil] at h
  exact h rfl

/-! ## Blanks and names -/

/-- The blank characters as inclusive ranges of code points. -/
def blankRanges : List (Nat × Nat) :=
  [(0x09, 0x0D), (0x1C, 0x20), (0x85, 0x85), (0xA0, 0xA0), (0x1680, 0x1680), (0x2000, 0x200A),
    (0x2028, 0x2029), (0x202F, 0x202F), (0x205F, 0x205F), (0x3000, 0x3000)]

theorem exists_mem_blankRanges {c : Char} (h : isBlank c = true) :
    ∃ r ∈ blankRanges, r.1 ≤ c.toNat ∧ c.toNat ≤ r.2 := by
  simp only [isBlank, Bool.or_eq_true, Bool.and_eq_true, decide_eq_true_eq, beq_iff_eq] at h
  simp only [blankRanges, List.mem_cons, List.not_mem_nil, or_false, exists_eq_or_imp,
    exists_eq_left]
  omega

/-- A blank is no part of a name. -/
theorem isNamePart_of_isBlank {c : Char} (h : isBlank c = true) : isNamePart c = false := by
  have hapart : (blankRanges.all fun r ↦
      wordRanges.all fun s ↦ r.2.blt s.1 || s.2.blt r.1) = true := by
    decide +kernel
  have hascii : ∀ n < 0x80, isBlank (Char.ofNat n) = true → isNamePart (Char.ofNat n) = false := by
    decide
  by_cases hc : c.toNat < 0x80
  · have hn := hascii c.toNat hc
    rw [Char.ofNat_toNat] at hn
    exact hn h
  · obtain ⟨r, hr, hle, hge⟩ := exists_mem_blankRanges h
    have hdot : ¬c = '.' := by
      rintro rfl
      exact hc (by decide)
    have hword : isWord c = false := by
      rw [isWord, if_neg hc, List.any_eq_false]
      intro s hs
      have hrs := List.all_eq_true.mp (List.all_eq_true.mp hapart r hr) s hs
      simp only [Bool.or_eq_true, Nat.blt_eq] at hrs
      simp only [Bool.and_eq_true, decide_eq_true_eq, not_and]
      omega
    simp [isNamePart, hword, hdot]

end CSharpOutline.Text
