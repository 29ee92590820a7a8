import CSharpOutline.Proofs.Head.Parts

/-!
# Phrases among the words of a text

A modifier is looked for in place: its words one after the other, blanks between them, and a word
boundary on both sides. A reader thinks of the words of the line instead. Here a line is cut into
its words, each with the characters in front of it that belong to no word, and a modifier is carried
exactly if words in a row are the words of the modifier and nothing but blanks stands between them
(`Text.carries_exact`). A longer word that holds the modifier is not enough, and neither are the
words of the modifier with anything else in between.

`Text.CutsInto` says what it is to cut a text into its words, and the search is followed over it: it
passes over the characters in front of a word and over the rest of a word, so that the phrase can
only start where a word does.
-/

namespace CSharpOutline

structure WordRun where
  /-- The characters in front of the word that belong to no word. -/
  gap : Text
  word : Text
  deriving DecidableEq, Repr

namespace Text

/-! ## Cutting a text into words -/

/-- The words of a text, each with the characters between it and the word before. -/
def wordRuns : Text → List WordRun
  | [] => []
  | c :: t =>
    if isWord c then
      if t.head?.any isWord then (wordRuns t).modifyHead fun r ↦ { r with word := c :: r.word }
      else ⟨[], [c]⟩ :: wordRuns t
    else (wordRuns t).modifyHead fun r ↦ { r with gap := c :: r.gap }

/-- The words of a text are `runs`: each is a run of word characters that neither the characters
in front of it nor those behind it go on with. -/
inductive CutsInto : Text → List WordRun → Prop
  | nil {t : Text} : (∀ c ∈ t, isWord c = false) → CutsInto t []
  | cons {gap word rest : Text} {runs : List WordRun} : (∀ c ∈ gap, isWord c = false) →
      word ≠ [] → (∀ c ∈ word, isWord c = true) → rest.head?.any isWord = false →
      CutsInto rest runs → CutsInto (gap ++ (word ++ rest)) (⟨gap, word⟩ :: runs)

theorem exists_cons_of_head? {p : Char → Bool} {t : Text} (h : t.head?.any p = true) :
    ∃ c s, t = c :: s ∧ p c = true := by
  rcases t with - | ⟨c, s⟩
  · exact absurd h (by simp)
  · exact ⟨c, s, rfl, h⟩

theorem cutsInto_wordRuns (t : Text) : t.CutsInto t.wordRuns := by
  induction t with
  | nil => exact .nil (by simp)
  | cons c t ih =>
    by_cases hc : isWord c = true
    · rw [wordRuns, if_pos hc]
      by_cases ht : t.head?.any isWord = true
      · rw [if_pos ht]
        generalize wordRuns t = runs at ih
        cases ih with
        | nil hnone =>
          obtain ⟨d, s, rfl, hword⟩ := exists_cons_of_head? ht
          rw [hnone d List.mem_cons_self] at hword
          exact absurd hword (by decide)
        | @cons gap word rest runs hgap hne hword hrest hruns =>
          -- a word that has begun has nothing in front
          obtain rfl : gap = [] := by
            rcases gap with - | ⟨d, gap⟩
            · rfl
            · rw [List.cons_append, List.head?_cons, Option.any_some,
                hgap d List.mem_cons_self] at ht
              exact absurd ht (by decide)
          exact .cons hgap (List.cons_ne_nil c word)
            (List.forall_mem_cons.mpr ⟨hc, hword⟩) hrest hruns
      · rw [if_neg ht]
        have hrun : CutsInto ([] ++ ([c] ++ t)) (⟨[], [c]⟩ :: wordRuns t) :=
          .cons (by simp) (by simp) (by simpa using hc) (by simpa using ht) ih
        exact hrun
    · have hc : isWord c = false := by simpa using hc
      rw [wordRuns, if_neg (by simp [hc])]
      generalize wordRuns t = runs at ih
      cases ih with
      | nil hnone => exact .nil (List.forall_mem_cons.mpr ⟨hc, hnone⟩)
      | cons hgap hne hword hrest hruns =>
        exact .cons (List.forall_mem_cons.mpr ⟨hc, hgap⟩) hne hword hrest hruns

private theorem CutsInto.wordRuns_eq {t : Text} {runs : List WordRun} (h : t.CutsInto runs) :
    t.wordRuns = runs := by
  induction h with
  | @nil t hnone =>
    induction t with
    | nil => rfl
    | cons c t ih =>
      rw [List.forall_mem_cons] at hnone
      rw [wordRuns, if_neg (by simp [hnone.1]), ih hnone.2, List.modifyHead_nil]
  | @cons gap word rest runs hgap hne hword hrest _ ih =>
    induction gap with
    | cons c gap ihgap =>
      rw [List.forall_mem_cons] at hgap
      rw [List.cons_append, wordRuns, if_neg (by simp [hgap.1]), ihgap hgap.2,
        List.modifyHead_cons]
    | nil =>
      rw [List.nil_append]
      induction word with
      | nil => exact absurd rfl hne
      | cons c word ihword =>
        rw [List.forall_mem_cons] at hword
        rw [List.cons_append, wordRuns, if_pos hword.1]
        rcases word with - | ⟨d, word⟩
        · rw [List.nil_append, if_neg (by simp [hrest]), ih]
        · have hd := hword.2 d List.mem_cons_self
          rw [if_pos (by simpa using hd), ihword (List.cons_ne_nil d word) hword.2,
            List.modifyHead_cons]

theorem cutsInto_iff {t : Text} {runs : List WordRun} : t.CutsInto runs ↔ t.wordRuns = runs :=
  ⟨CutsInto.wordRuns_eq, fun h ↦ h ▸ cutsInto_wordRuns t⟩

/-! ## Reading a phrase at a word

Where a word starts, a phrase is read word by word: each of its words is the next one of the text,
and what is skipped in front of the next one is blank. -/

/-- The first of `runs` are the words `words`, in this order and with nothing but blanks between
them. -/
def StartsPhrase (words : List Text) (runs : List WordRun) : Prop :=
  ∃ phrase, phrase <+: runs ∧ phrase.map WordRun.word = words ∧
    ∀ run ∈ phrase.tail, run.gap.allBlank = true

private theorem startsPhrase_singleton {word : Text} {run : WordRun} {runs : List WordRun} :
    StartsPhrase [word] (run :: runs) ↔ run.word = word := by
  constructor
  · rintro ⟨phrase, hfirst, hwords, -⟩
    obtain ⟨first, rfl, hword⟩ := List.map_eq_singleton_iff.mp hwords
    rw [← hword, (List.cons_prefix_cons.mp hfirst).1]
  · intro hword
    exact ⟨[run], List.prefix_append [run] runs, by simp [hword], by simp⟩

private theorem startsPhrase_cons_cons {word next : Text} {words : List Text} {run : WordRun}
    {runs : List WordRun} :
    StartsPhrase (word :: next :: words) (run :: runs) ↔
      run.word = word ∧ runs.head?.all (·.gap.allBlank) = true ∧
        StartsPhrase (next :: words) runs := by
  constructor
  · rintro ⟨phrase, hfirst, hwords, hblank⟩
    obtain ⟨first, phrase, rfl, hword, hwords⟩ := List.map_eq_cons_iff.mp hwords
    obtain ⟨second, phrase, rfl, -, -⟩ := List.map_eq_cons_iff.mp hwords
    obtain ⟨rfl, more, rfl⟩ := List.cons_prefix_cons.mp hfirst
    rw [List.tail_cons, List.forall_mem_cons] at hblank
    exact ⟨hword, hblank.1, second :: phrase, List.prefix_append _ more, hwords, hblank.2⟩
  · rintro ⟨hword, hhead, phrase, hfirst, hwords, hblank⟩
    obtain ⟨second, phrase, rfl, -, -⟩ := List.map_eq_cons_iff.mp hwords
    obtain ⟨more, rfl⟩ := hfirst
    exact ⟨run :: second :: phrase, List.prefix_append _ more,
      by rw [List.map_cons, hword, hwords], List.forall_mem_cons.mpr ⟨hhead, hblank⟩⟩

private theorem not_startsPhrase_nil {words : List Text} (hne : words ≠ []) :
    ¬StartsPhrase words [] := by
  rintro ⟨phrase, hfirst, rfl, -⟩
  exact hne (by rw [List.prefix_nil.mp hfirst, List.map_nil])

theorem append_inj_of_class {p : Char → Bool} {u u' r r' : Text} (hu : ∀ c ∈ u, p c = true)
    (hu' : ∀ c ∈ u', p c = true) (hr : r.head?.any p = false) (hr' : r'.head?.any p = false) :
    u ++ r = u' ++ r' ↔ u = u' ∧ r = r' := by
  refine ⟨fun heq ↦ ?_, fun h ↦ by rw [h.1, h.2]⟩
  have hdrop := congrArg (List.dropWhile p) heq
  rw [List.dropWhile_append_of_pos hu, List.dropWhile_append_of_pos hu', dropWhile_of_head hr,
    dropWhile_of_head hr'] at hdrop
  rw [hdrop] at heq
  exact ⟨List.append_cancel_right heq, hdrop⟩

theorem afterPhrase?_cons_cons (word next : Text) (words : List Text) (t : Text) :
    afterPhrase? (word :: next :: words) t =
      ((expect? word t).bind skipBlanks?).bind (afterPhrase? (next :: words)) := by
  rw [afterPhrase?]
  · cases (expect? word t).bind skipBlanks? <;> rfl
  · simp

/-- A phrase stands at the start of a text, and its last word ends there. -/
def ReadsPhrase (words : List Text) (t : Text) : Prop :=
  ∃ rest, afterPhrase? words t = some rest ∧ rest.head?.any isWord = false

theorem expect?_word_iff {first word rest q : Text} (hfirst : ∀ c ∈ first, isWord c = true)
    (hword : ∀ c ∈ word, isWord c = true) (hrest : rest.head?.any isWord = false)
    (hq : q.head?.any isWord = false) :
    expect? first (word ++ rest) = some q ↔ word = first ∧ rest = q := by
  rw [expect?_eq_some_iff, append_inj_of_class hword hfirst hrest hq]

private theorem readsPhrase_cons_cons {first next : Text} {words : List Text} {word rest : Text}
    (hfirst : ∀ c ∈ first, isWord c = true) (hword : ∀ c ∈ word, isWord c = true)
    (hrest : rest.head?.any isWord = false) :
    ReadsPhrase (first :: next :: words) (word ++ rest) ↔
      word = first ∧ ∃ s, skipBlanks? rest = some s ∧ ReadsPhrase (next :: words) s := by
  constructor
  · rintro ⟨r, hread, hend⟩
    rw [afterPhrase?_cons_cons] at hread
    obtain ⟨s, hs, hnext⟩ := Option.bind_eq_some_iff.mp hread
    obtain ⟨q, hq, hs⟩ := Option.bind_eq_some_iff.mp hs
    have hbreak : q.head?.any isWord = false := by
      obtain ⟨b, hb, rfl, -⟩ := Written.skipBlanks?_eq_some_iff.mp hs
      exact Written.head?_blanks_append b isWord_of_isBlank fun h ↦ absurd h hb
    obtain ⟨rfl, rfl⟩ := (expect?_word_iff hfirst hword hrest hbreak).mp hq
    exact ⟨rfl, s, hs, r, hnext, hend⟩
  · rintro ⟨rfl, s, hs, r, hnext, hend⟩
    have hq := (expect?_word_iff hfirst hword hrest hrest).mpr ⟨rfl, rfl⟩
    exact ⟨r, by rw [afterPhrase?_cons_cons, hq, Option.bind_some, hs, Option.bind_some, hnext],
      hend⟩

section

variable {words : List Text} (hne : words ≠ [])
  (hwords : ∀ word ∈ words, word ≠ [] ∧ ∀ c ∈ word, isWord c = true)

include hne hwords

theorem head?_of_afterPhrase? {t rest : Text} (h : afterPhrase? words t = some rest) :
    t.head?.any isWord = true := by
  obtain ⟨word, more, rfl⟩ := List.exists_cons_of_ne_nil hne
  obtain ⟨hnil, hword⟩ := hwords word List.mem_cons_self
  obtain ⟨c, w, rfl⟩ := List.exists_cons_of_ne_nil hnil
  obtain ⟨q, hq⟩ : ∃ q, expect? (c :: w) t = some q := by
    rcases more with - | ⟨next, more⟩
    · exact ⟨rest, h⟩
    · rw [afterPhrase?_cons_cons] at h
      obtain ⟨s, hs, -⟩ := Option.bind_eq_some_iff.mp h
      obtain ⟨q, hq, -⟩ := Option.bind_eq_some_iff.mp hs
      exact ⟨q, hq⟩
  rw [expect?_eq_some_iff.mp hq]
  exact hword c List.mem_cons_self

private theorem skipBlanks?_gap_iff {gap t : Text} (hgap : ∀ c ∈ gap, isWord c = false)
    (hnil : gap ≠ []) (ht : t.head?.any isWord = true) :
    (∃ s, skipBlanks? (gap ++ t) = some s ∧ ReadsPhrase words s) ↔
      gap.allBlank = true ∧ ReadsPhrase words t := by
  have hother {s : Text} (hs : s.head?.any isWord = true) : s.head?.any (!isWord ·) = false := by
    obtain ⟨c, s, rfl, hword⟩ := exists_cons_of_head? hs
    rw [List.head?_cons, Option.any_some, hword]
    rfl
  constructor
  · rintro ⟨s, hskip, hreads⟩
    obtain ⟨b, -, heq, -⟩ := Written.skipBlanks?_eq_some_iff.mp hskip
    have hs : s.head?.any isWord = true := by
      obtain ⟨r, hr, -⟩ := hreads
      exact head?_of_afterPhrase? hne hwords hr
    have hblank : ∀ c ∈ b.1, isWord c = false := fun c hc ↦
      isWord_of_isBlank c (allBlank_iff.mp b.2 c hc)
    -- both the gap and the blanks end where the first word character stands
    obtain ⟨rfl, rfl⟩ := (append_inj_of_class (p := (!isWord ·)) (by simpa using hgap)
      (by simpa using hblank) (hother ht) (hother hs)).mp heq
    exact ⟨b.2, hreads⟩
  · rintro ⟨hblank, hreads⟩
    refine ⟨t, Written.skipBlanks?_eq_some_iff.mpr ⟨⟨gap, hblank⟩, hnil, rfl, ?_⟩, hreads⟩
    obtain ⟨c, s, rfl, hword⟩ := exists_cons_of_head? ht
    rw [List.head?_cons, Option.any_some, isBlank_of_isWord hword]

/-- At a word of the text a phrase is read exactly if this word and the next ones are those of the
phrase. -/
theorem readsPhrase_iff (gap : Text) {word rest : Text} {runs : List WordRun}
    (hword : ∀ c ∈ word, isWord c = true) (hrest : rest.head?.any isWord = false)
    (hruns : rest.CutsInto runs) :
    ReadsPhrase words (word ++ rest) ↔ StartsPhrase words (⟨gap, word⟩ :: runs) := by
  induction words generalizing gap word rest runs with
  | nil => exact absurd rfl hne
  | cons first words ih =>
    rw [List.forall_mem_cons] at hwords
    obtain ⟨⟨-, hfirst⟩, hwords⟩ := hwords
    rcases words with - | ⟨next, words⟩
    · rw [startsPhrase_singleton]
      constructor
      · rintro ⟨q, hq, hend⟩
        exact ((expect?_word_iff hfirst hword hrest hend).mp hq).1
      · rintro rfl
        exact ⟨rest, (expect?_word_iff hfirst hword hrest hrest).mpr ⟨rfl, rfl⟩, hrest⟩
    · have hnext : next :: words ≠ [] := List.cons_ne_nil next words
      rw [readsPhrase_cons_cons hfirst hword hrest, startsPhrase_cons_cons]
      refine and_congr_right fun _ ↦ ?_
      cases hruns with
      | nil hnone =>
        refine iff_of_false ?_ fun h ↦ not_startsPhrase_nil hnext h.2
        rintro ⟨s, hs, r, hr, -⟩
        obtain ⟨c, s, rfl, hword⟩ := exists_cons_of_head? (head?_of_afterPhrase? hnext hwords hr)
        rw [hnone c ((Text.skipBlanks?_suffix hs).subset List.mem_cons_self)] at hword
        exact absurd hword (by decide)
      | @cons gap' word' rest' runs' hgap' hne' hword' hrest' hruns' =>
        have hhead : (word' ++ rest').head?.any isWord = true := by
          obtain ⟨c, w, rfl⟩ := List.exists_cons_of_ne_nil hne'
          exact hword' c List.mem_cons_self
        have hnil : gap' ≠ [] := by
          rintro rfl
          rw [List.nil_append, hhead] at hrest
          exact absurd hrest (by decide)
        rw [skipBlanks?_gap_iff hnext hwords hgap' hnil hhead,
          ih hnext hwords gap' hword' hrest' hruns']
        rfl

/-! ## Searching a text for a phrase

No phrase starts between two words or inside one, so the search tries the words of the text one
after the other. -/

/-- A phrase stands in place if no word goes on into it and it is read. -/
theorem phraseHere_iff {before : Option Char} {t : Text} :
    phraseHere words before t = true ↔ before.any isWord = false ∧ ReadsPhrase words t := by
  have hlast : (lastOf? words).any isWord = true := by
    obtain ⟨w, hw⟩ := List.getLast?_isSome.mpr hne |> Option.isSome_iff_exists.mp
    obtain ⟨hnil, hword⟩ := hwords w (List.mem_of_getLast? hw)
    rw [lastOf?, hw, Option.bind_some, List.getLast?_eq_some_getLast hnil, Option.any_some]
    exact hword _ (List.getLast_mem hnil)
  rw [phraseHere]
  constructor
  · intro h
    split at h
    · exact absurd h (by decide)
    · next rest hrest =>
      rw [Bool.and_eq_true, atBoundary, atBoundary, hlast,
        head?_of_afterPhrase? hne hwords hrest] at h
      exact ⟨by simpa using h.1, rest, hrest, by simpa using h.2⟩
  · rintro ⟨hbefore, rest, hrest, hend⟩
    rw [hrest]
    dsimp only
    rw [atBoundary, atBoundary, hlast, head?_of_afterPhrase? hne hwords hrest, hbefore, hend]
    rfl

private theorem hasPhraseAfter_gap {gap : Text} (hgap : ∀ c ∈ gap, isWord c = false)
    (before : Option Char) (t : Text) :
    hasPhraseAfter words before (gap ++ t) = hasPhraseAfter words (gap.getLast?.or before) t := by
  induction gap generalizing before with
  | nil => rfl
  | cons c gap ih =>
    rw [List.forall_mem_cons] at hgap
    have hhere : phraseHere words before (c :: (gap ++ t)) = false := by
      rw [← Bool.not_eq_true, phraseHere_iff hne hwords]
      rintro ⟨-, rest, hrest, -⟩
      have hhead := head?_of_afterPhrase? hne hwords hrest
      rw [List.head?_cons, Option.any_some, hgap.1] at hhead
      exact absurd hhead (by decide)
    rw [List.cons_append, hasPhraseAfter, hhere, Bool.false_or, ih hgap.2, List.getLast?_cons]
    cases gap.getLast? <;> rfl

private theorem hasPhraseAfter_word {word : Text} (hword : ∀ c ∈ word, isWord c = true) {c : Char}
    (hc : isWord c = true) (t : Text) :
    ∃ d, hasPhraseAfter words (some c) (word ++ t) = hasPhraseAfter words (some d) t := by
  induction word generalizing c with
  | nil => exact ⟨c, rfl⟩
  | cons d word ih =>
    rw [List.forall_mem_cons] at hword
    have hhere : phraseHere words (some c) (d :: (word ++ t)) = false := by
      rw [← Bool.not_eq_true, phraseHere_iff hne hwords, Option.any_some, hc]
      exact fun h ↦ absurd h.1 (by decide)
    obtain ⟨e, he⟩ := ih hword.2 hword.1
    exact ⟨e, by rw [List.cons_append, hasPhraseAfter, hhere, Bool.false_or, he]⟩

/-- A phrase is found exactly if words of the text in a row are those of the phrase. If the text
starts inside a word, what is left of that word does not count. -/
theorem hasPhraseAfter_iff {t : Text} {runs : List WordRun} (hruns : t.CutsInto runs)
    (before : Option Char) (hbefore : before.any isWord = false ∨ t.head?.any isWord = false) :
    hasPhraseAfter words before t = true ↔
      ∃ phrase, phrase <:+: runs ∧ phrase.map WordRun.word = words ∧
        ∀ run ∈ phrase.tail, run.gap.allBlank = true := by
  induction hruns generalizing before with
  | @nil t hnone =>
    have hend := hasPhraseAfter_gap hne hwords hnone before []
    rw [List.append_nil, hasPhraseAfter] at hend
    rw [hend]
    refine iff_of_false (by decide) ?_
    rintro ⟨phrase, hfirst, rfl, -⟩
    exact hne (by rw [List.infix_nil.mp hfirst, List.map_nil])
  | @cons gap word rest runs hgap hnil hword hrest hruns ih =>
    obtain ⟨c, w, rfl⟩ := List.exists_cons_of_ne_nil hnil
    have hfront : (gap.getLast?.or before).any isWord = false := by
      cases hlast : gap.getLast? with
      | some d => exact hgap d (List.mem_of_getLast? hlast)
      | none =>
        rw [List.getLast?_eq_none_iff.mp hlast] at hbefore
        exact hbefore.resolve_right (by simp [hword c List.mem_cons_self])
    have hcw := List.forall_mem_cons.mp hword
    obtain ⟨d, hd⟩ := hasPhraseAfter_word hne hwords hcw.2 hcw.1 rest
    rw [hasPhraseAfter_gap hne hwords hgap, List.cons_append, hasPhraseAfter, hd, Bool.or_eq_true,
      ih _ (.inr hrest), ← List.cons_append, phraseHere_iff hne hwords,
      readsPhrase_iff hne hwords gap hword hrest hruns]
    simp only [hfront, true_and, List.infix_cons_iff, or_and_right, exists_or]
    rfl

end

/-! ## Modifiers -/

/-- Whether a line carries a modifier is a question about its words: words in a row are the words of
the modifier, and nothing but blanks stands between them. The line declares a public member exactly
if it carries `public`, and ends the member above it exactly if it is blank or carries the modifier
of a member that is not public. -/
theorem carries_exact (t : Text) :
    t.CutsInto t.wordRuns ∧
      (∀ modifier : Text, modifier.fields ≠ [] →
        (∀ word ∈ modifier.fields, ∀ c ∈ word, isWord c = true) →
        (t.carries modifier = true ↔
          ∃ phrase, phrase <:+: t.wordRuns ∧ phrase.map WordRun.word = modifier.fields ∧
            ∀ run ∈ phrase.tail, run.gap.allBlank = true)) ∧
      t.declaresPublic = t.carries "public".toList ∧
      (t.endsMember = true ↔
        t.allBlank = true ∨ ∃ modifier ∈ restrictedAccess, t.carries modifier = true) := by
  refine ⟨cutsInto_wordRuns t, fun modifier hne hword ↦ ?_, ?_, ?_⟩
  · have hwords : ∀ word ∈ modifier.fields, word ≠ [] ∧ ∀ c ∈ word, isWord c = true :=
      fun word hmem ↦ ⟨(mem_fields hmem).1, hword word hmem⟩
    have hfound := hasPhraseAfter_iff hne hwords (cutsInto_wordRuns t) none (.inl rfl)
    rw [← hfound, carries, hasPhrase]
    simp [hne]
  · rw [declaresPublic, carries_eq_hasWord List.mem_cons_self]
  · have hcarries : ∀ modifier ∈ restrictedAccess, t.carries modifier = t.hasWord modifier :=
      fun modifier hmem ↦ carries_eq_hasWord (List.mem_cons_of_mem _ hmem) t
    rw [endsMember, Bool.or_eq_true, List.any_eq_true]
    refine or_congr_right (exists_congr fun modifier ↦ and_congr_right fun hmem ↦ ?_)
    rw [hcarries modifier hmem]

/-- A modifier of two words. -/
def protectedInternal : Text := "protected internal".toList

/-- A line with both words of the modifier, further apart and once inside a longer word. -/
def compoundLine : Text := "[Key] protected\t internal int unprotected;".toList

theorem carries_exact_compoundLine :
    protectedInternal.fields ≠ [] ∧
      (∀ word ∈ protectedInternal.fields, ∀ c ∈ word, isWord c = true) ∧
      compoundLine.carries protectedInternal = true ∧
      compoundLine.declaresPublic = compoundLine.carries "public".toList ∧
      compoundLine.endsMember = true := by
  have hne : protectedInternal.fields ≠ [] := by decide
  have hwords : Head.areWords protectedInternal.fields = true := by decide
  have hword : ∀ word ∈ protectedInternal.fields, ∀ c ∈ word, isWord c = true :=
    fun _ hmem _ hc ↦ Head.isWord_of_areWords hwords hmem hc
  obtain ⟨-, hcarries, hpublic, hends⟩ := carries_exact compoundLine
  refine ⟨hne, hword, (hcarries _ hne hword).mpr ?_, hpublic, hends.mpr (.inr ?_)⟩
  · exact ⟨[⟨"] ".toList, "protected".toList⟩, ⟨"\t ".toList, "internal".toList⟩],
      by decide +kernel, by decide, by decide⟩
  · exact ⟨"internal".toList, by decide, by decide +kernel⟩

end Text

end CSharpOutline
