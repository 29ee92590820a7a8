import CSharpOutline.Proofs.Code.Passing
import CSharpOutline.Proofs.Declaration.Bases
import CSharpOutline.Proofs.Declaration.TypeStart
import Mathlib.Data.List.Infix

/-!
# Every base list is read

A base list is read twice. First its end is looked for among the outermost characters of the text,
then what stands in front of the end is split at its outermost commas. Both readings start with a
fresh balance and go through the same entries, and what keeps them together is that an entry is
passed over as a whole: it leaves a fresh balance fresh (`Entry.run_fresh`), and neither a comma nor
the end of the list is among its outermost characters (`Entry.avoids`).

The word `where` needs its neighbours. It ends the list as a whole word only, so a name may have it
as a part of a longer one, and what follows a name must not go on with it. That is why the readers
are shown the character in front, and why a constraint has to stand behind a blank.
-/

namespace CSharpOutline

namespace Text

/-- Whether a base list ends at the start of `t`: at its body, a semicolon or a constraint. -/
def endsBases (before : Option Char) (t : Text) : Bool :=
  t.head?.any (fun c ↦ c == '{' || c == ';') || phraseHere ["where".toList] before t

/-- Whether an entry of a base list ends at the start of `t`. -/
def endsEntry (before : Option Char) (t : Text) : Bool := t.head? == some ',' || endsBases before t

theorem startsWhere_eq {pre t : Text} (hne : t ≠ []) :
    (pre ++ t).startsWhere ⟨pre.length, t⟩ = .ok (phraseHere ["where".toList] pre.getLast? t) := by
  have hlength := List.length_pos_iff.mpr hne
  have hafter : (pre ++ t)[pre.length + 5]? = t[5]? := by
    rw [List.getElem?_append_right (by omega), Nat.add_sub_cancel_left]
  rw [startsWhere_natCast (i := pre.length) (by rw [List.length_append]; omega) rfl,
    List.take_left, hafter, startsWith, phraseHere, afterPhrase?]
  cases hrest : expect? "where".toList t with
  | none => rfl
  | some rest =>
    have hindex : ("where".toList ++ rest)[5]? = rest.head? := by cases rest <;> rfl
    have hfirst : ("where".toList ++ rest).head?.any isWord = true := rfl
    have hlast : (lastOf? ["where".toList]).any isWord = true := by decide
    rw [expect?_eq_some_iff.mp hrest, hindex]
    dsimp only
    rw [atBoundary, atBoundary, hfirst, hlast]
    cases pre.getLast?.any isWord <;> cases rest.head?.any isWord <;> rfl

theorem endsEntry_cons {c : Char} (hc : c ∉ [',', '{', ';']) (before : Option Char) (t : Text) :
    endsEntry before (c :: t) = phraseHere ["where".toList] before (c :: t) := by
  simp only [List.mem_cons, List.not_mem_nil, or_false, not_or] at hc
  obtain ⟨hcomma, hbrace, hsemicolon⟩ := hc
  rw [endsEntry, endsBases, List.head?_cons, Option.any_some, beq_eq_false_iff_ne.mpr hbrace,
    beq_eq_false_iff_ne.mpr hsemicolon, beq_eq_false_iff_ne.mpr (by simpa using hcomma)]
  rfl

/-- The word is looked for only where its first letter stands. -/
theorem endsEntry_of_not_mem {c : Char} (hc : c ∉ [',', '{', ';', 'w']) (before : Option Char)
    (t : Text) : endsEntry before (c :: t) = false := by
  have hnone : expect? "where".toList (c :: t) = none :=
    if_neg fun hw ↦ hc (by rw [hw]; decide)
  rw [endsEntry_cons fun hmem ↦ hc (List.mem_append_left ['w'] hmem), phraseHere, afterPhrase?,
    hnone]

private theorem endingStop?_of_avoids {pre s rest : Text} {b : Balance}
    (h : Balance.Avoids endsBases rest b pre.getLast? s) :
    (pre ++ (s ++ rest)).endingStop? (b.stops pre.length (s ++ rest)) =
      (pre ++ (s ++ rest)).endingStop? ((b.run s).stops (pre.length + s.length) rest) := by
  induction s generalizing pre b with
  | nil => simp
  | cons c s ih =>
    have htext : pre ++ (c :: s ++ rest) = pre ++ [c] ++ (s ++ rest) := by simp
    have hbehind : Balance.Avoids endsBases rest (b.step c) (pre ++ [c]).getLast? s := by
      rw [List.getLast?_concat]
      exact h.2
    have hnext := ih hbehind
    have hoffset : ((pre ++ [c]).length : Int) = pre.length + 1 := by simp
    have hlength : (pre.length : Int) + (c :: s).length = pre.length + 1 + s.length := by
      rw [List.length_cons]
      omega
    rw [← htext, hoffset] at hnext
    rw [Balance.run_cons, hlength, ← hnext, List.cons_append, Balance.stops]
    split
    · next hout =>
      have hstop := h.1 hout
      rw [endsBases, Bool.or_eq_false_iff] at hstop
      rw [endingStop?, if_neg (by rw [hstop.1]; decide), startsWhere_eq (List.cons_ne_nil _ _),
        hstop.2]
      rfl
    · rfl

private theorem endingStop?_of_endsBases {pre t : Text} {c : Char} {b : Balance}
    (hout : b.isOutermost c = true) (hends : endsBases pre.getLast? (c :: t) = true) :
    (pre ++ c :: t).endingStop? (b.stops pre.length (c :: t)) = .ok (some pre.length) := by
  rw [Balance.stops, if_pos hout, endingStop?, startsWhere_eq (List.cons_ne_nil c t)]
  rw [endsBases, Bool.or_eq_true] at hends
  split
  · rfl
  · next hmark =>
    rw [hends.resolve_left hmark]
    rfl

end Text

/-! ## Entries

An entry is passed over as a whole: it leaves a fresh balance fresh, and neither a comma nor the end
of the list is among its outermost characters. -/

namespace Written

/-- What may follow the name of an entry. -/
inductive EntryPart where
  | typeArguments (group : Group '<') (closed : Lexer.closesLiterals {} group.text = true)
  | arguments (group : Group '(') (closed : Lexer.closesLiterals {} group.text = true)
  | gap (blanks : Blanks)

def EntryPart.text : EntryPart → Text
  | .typeArguments group _ => group.text
  | .arguments group _ => group.text
  | .gap blanks => blanks.1

/-- An entry of a base list: a name, and arguments behind it. -/
structure Entry where
  lead : Blanks
  name : QualifiedName
  /-- The word would end the list. -/
  free : name.text.hasWord "where".toList = false
  tail : List EntryPart

namespace EntryPart

variable (part : EntryPart) (tail : List EntryPart)

theorem run_fresh : Balance.fresh.run part.text = Balance.fresh := by
  rcases part with ⟨group, closed⟩ | ⟨group, closed⟩ | blanks
  · exact Balance.run_group group.nested closed
  · exact Balance.run_group group.nested closed
  · refine Balance.run_fresh fun c hc ↦ ?_
    exact Balance.isNeutral_of_isBlank (Text.allBlank_iff.mp blanks.2 c hc)

private theorem avoids_group {opener : Char}
    (hopener : opener ∉ [',', '{', ';', 'w']) (g : Group opener)
    {rest : Text} {before : Option Char} :
    Balance.Avoids Text.endsEntry rest Balance.fresh before g.text := by
  refine Balance.avoids_group g.nested fun c t hc ↦ ?_
  rw [g.opens, Option.some.injEq] at hc
  exact Text.endsEntry_of_not_mem (hc ▸ hopener) _ _

theorem avoids {rest : Text} {before : Option Char} :
    Balance.Avoids Text.endsEntry rest Balance.fresh before part.text := by
  rcases part with ⟨group, closed⟩ | ⟨group, closed⟩ | blanks
  · exact avoids_group (by decide) group
  · exact avoids_group (by decide) group
  · have hblank := Text.allBlank_iff.mp blanks.2
    refine Balance.avoids_neutral (fun c hc ↦ Balance.isNeutral_of_isBlank (hblank c hc)) ?_
    intro c hc
    refine Text.endsEntry_of_not_mem fun hmem ↦ ?_
    have hvisible : [',', '{', ';', 'w'].all (!isBlank ·) = true := by decide
    have hnot := List.all_eq_true.mp hvisible c hmem
    rw [hblank c hc] at hnot
    exact absurd hnot (by decide)

private theorem head?_text : part.text.head?.any isWord = false := by
  rcases part with ⟨group, -⟩ | ⟨group, -⟩ | blanks
  · rw [text, group.opens]
    decide
  · rw [text, group.opens]
    decide
  · rw [← Bool.not_eq_true, Option.any_eq_true]
    rintro ⟨c, hc, hword⟩
    rw [Text.isWord_of_isBlank c (Text.allBlank_iff.mp blanks.2 c (List.mem_of_head? hc))] at hword
    exact absurd hword (by decide)

private theorem run_fresh_tail : Balance.fresh.run (tail.flatMap text) = Balance.fresh := by
  induction tail with
  | nil => rfl
  | cons part tail ih => rw [List.flatMap_cons, Balance.run_append, run_fresh, ih]

private theorem avoids_tail {rest : Text} {before : Option Char} :
    Balance.Avoids Text.endsEntry rest Balance.fresh before (tail.flatMap text) := by
  induction tail generalizing before with
  | nil => exact trivial
  | cons part tail ih =>
    rw [List.flatMap_cons]
    refine part.avoids.append ?_
    rw [run_fresh]
    exact ih

private theorem head?_tail : (tail.flatMap text).head?.any isWord = false := by
  induction tail with
  | nil => rfl
  | cons part tail ih =>
    have hpart := part.head?_text
    rw [List.flatMap_cons, List.head?_append]
    cases hhead : part.text.head? with
    | none => exact ih
    | some c => rwa [hhead] at hpart

private theorem allBlank_takeWhile_tail :
    Text.allBlank ((tail.flatMap text).takeWhile fun c ↦ c != '<' && c != '(') = true := by
  induction tail with
  | nil => rfl
  | cons part tail ih =>
    rw [List.flatMap_cons]
    rcases part with ⟨group, -⟩ | ⟨group, -⟩ | blanks
    · obtain ⟨t, ht⟩ := List.head?_eq_some_iff.mp group.opens
      rw [text, ht]
      rfl
    · obtain ⟨t, ht⟩ := List.head?_eq_some_iff.mp group.opens
      rw [text, ht]
      rfl
    · have hblank := Text.allBlank_iff.mp blanks.2
      rw [text, List.takeWhile_append_of_pos, Text.allBlank, List.all_append, Bool.and_eq_true]
      · exact ⟨blanks.2, ih⟩
      · intro c hc
        exact Balance.ne_opener_of_isNeutral (Balance.isNeutral_of_isBlank (hblank c hc))

end EntryPart

namespace Entry

variable (e : Entry)

def text : Text := e.lead.1 ++ (e.name.text ++ e.tail.flatMap EntryPart.text)

theorem run_fresh : Balance.fresh.run e.text = Balance.fresh := by
  have hlead := Text.allBlank_iff.mp e.lead.2
  rw [text, Balance.run_append, Balance.run_append,
    Balance.run_fresh fun c hc ↦ Balance.isNeutral_of_isBlank (hlead c hc),
    Balance.run_fresh fun c hc ↦
      Balance.isNeutral_of_qualified (e.name.qualified.isNamePart_or_colon c hc),
    EntryPart.run_fresh_tail]

/-- A name is passed over if the word stands nowhere in it. -/
theorem avoids_name {s rest : Text} {before : Option Char}
    (hs : ∀ c ∈ s, isNamePart c = true ∨ c = ':')
    (hfree : Text.hasPhraseAfter ["where".toList] before s = false)
    (hrest : rest.head?.any isWord = false) :
    Balance.Avoids Text.endsEntry rest Balance.fresh before s := by
  induction s generalizing before with
  | nil => exact trivial
  | cons c s ih =>
    rw [Text.hasPhraseAfter, Bool.or_eq_false_iff] at hfree
    rw [List.forall_mem_cons] at hs
    refine ⟨fun _ ↦ ?_, ?_⟩
    · have hhead : c ∉ [',', '{', ';'] := by
        intro hmem
        have hother : [',', '{', ';'].all (fun d ↦ !(isNamePart d || d == ':')) = true := by decide
        have hnot : isNamePart c = false ∧ c ≠ ':' := by
          simpa using List.all_eq_true.mp hother c hmem
        rcases hs.1 with hname | hcolon
        · rw [hnot.1] at hname
          exact absurd hname (by decide)
        · exact hnot.2 hcolon
      rw [Text.endsEntry_cons hhead,
        Text.phraseHere_singleton_append (by decide) Text.isWord_where hrest]
      exact hfree.1
    · rw [Balance.step_fresh (Balance.isNeutral_of_qualified hs.1)]
      exact ih hs.2 hfree.2

/-- Behind the name of an entry no word goes on, unless nothing stands there and the next text
starts with a word. -/
theorem head?_tail_append {rest : Text}
    (hrest : rest.head?.any isWord = false ∨ e.text.getLast?.any isBlank = true) :
    (e.tail.flatMap EntryPart.text ++ rest).head?.any isWord = false := by
  have htail := EntryPart.head?_tail e.tail
  rw [List.head?_append]
  cases hhead : (e.tail.flatMap EntryPart.text).head? with
  | some c => rwa [hhead] at htail
  | none =>
    rcases hrest with hrest | hblank
    · exact hrest
    · rw [text, List.head?_eq_none_iff.mp hhead, List.append_nil,
        List.getLast?_append_of_ne_nil _ e.name.ne_nil, Option.any_eq_true] at hblank
      obtain ⟨c, hc, hblank⟩ := hblank
      rw [e.name.qualified.isBlank_eq_false (List.mem_of_getLast? hc)] at hblank
      exact absurd hblank (by decide)

theorem avoids {rest : Text} {before : Option Char} (hbefore : before.any isWord = false)
    (hrest : rest.head?.any isWord = false ∨ e.text.getLast?.any isBlank = true) :
    Balance.Avoids Text.endsEntry rest Balance.fresh before e.text := by
  have hlead := Text.allBlank_iff.mp e.lead.2
  have hlast : (e.lead.1.getLast?.or before).any isWord = false := by
    cases hlead' : e.lead.1.getLast? with
    | none => exact hbefore
    | some c => exact Text.isWord_of_isBlank c (hlead c (List.mem_of_getLast? hlead'))
  have hfree : Text.hasPhraseAfter ["where".toList] (e.lead.1.getLast?.or before) e.name.text =
      false := by
    rw [Text.hasPhraseAfter_singleton (by decide) Text.isWord_where, hlast]
    exact e.free
  refine (EntryPart.avoids (.gap e.lead)).append ?_
  rw [EntryPart.run_fresh (.gap e.lead)]
  refine (avoids_name e.name.qualified.isNamePart_or_colon hfree
    (e.head?_tail_append hrest)).append ?_
  rw [Balance.run_fresh fun c hc ↦
    Balance.isNeutral_of_qualified (e.name.qualified.isNamePart_or_colon c hc)]
  exact EntryPart.avoids_tail e.tail

private theorem entryName_text : Text.entryName e.text = e.name.text := by
  have hblank := Text.allBlank_iff.mp e.lead.2
  have hqualified := e.name.qualified
  have htrimmed : Text.IsTrimmed e.name.text :=
    ⟨fun c hc ↦ hqualified.isBlank_eq_false (List.mem_of_head? hc),
      fun c hc ↦ hqualified.isBlank_eq_false (List.mem_of_getLast? hc)⟩
  rw [Text.entryName, text, List.takeWhile_append_of_pos, List.takeWhile_append_of_pos,
    ← List.append_assoc]
  · exact Text.trim_append e.lead.2 htrimmed (EntryPart.allBlank_takeWhile_tail e.tail)
  · intro c hc
    exact Balance.ne_opener_of_isNeutral
      (Balance.isNeutral_of_qualified (hqualified.isNamePart_or_colon c hc))
  · intro c hc
    exact Balance.ne_opener_of_isNeutral (Balance.isNeutral_of_isBlank (hblank c hc))

end Entry

/-! ## Base lists

The search for the end passes over the entries and the commas and stops at what follows the list, or
runs to the end of the text. In front of that the commas cut the entries apart. -/

/-- What may follow a base list. -/
inductive Ending where
  | nothing
  | body (rest : Text)
  | semicolon (rest : Text)
  | constraints (rest : Text) (whole : rest.head?.any isWord = false)

namespace Ending

def text : Ending → Text
  | .nothing => []
  | .body rest => '{' :: rest
  | .semicolon rest => ';' :: rest
  | .constraints rest _ => "where".toList ++ rest

/-- Whether the list ends at a constraint. -/
def isConstraints : Ending → Bool
  | .constraints .. => true
  | _ => false

end Ending

/-- The entries of a base list, with commas in between. -/
def joined (entries : List Entry) : Text := [','].intercalate (entries.map Entry.text)

theorem joined_singleton (e : Entry) : joined [e] = e.text := List.intercalate_singleton

theorem joined_cons_cons (e f : Entry) (entries : List Entry) :
    joined (e :: f :: entries) = e.text ++ ',' :: joined (f :: entries) := by
  rw [joined, List.map_cons, List.map_cons, List.intercalate_cons_cons, List.append_assoc]
  rfl

theorem joined_ne_nil {entries : List Entry} (hne : entries ≠ []) : joined entries ≠ [] := by
  obtain ⟨e, entries, rfl⟩ := List.exists_cons_of_ne_nil hne
  refine Text.intercalate_ne_nil fun hnil ↦ e.name.ne_nil ?_
  rw [Entry.text, List.append_eq_nil_iff, List.append_eq_nil_iff] at hnil
  exact hnil.2.1

/-- A base list, and what follows it. -/
structure BaseList where
  entries : List Entry
  ne_nil : entries ≠ []
  ending : Ending
  /-- The word that starts a constraint stands behind a blank. -/
  apart : ending.isConstraints = true → (joined entries).getLast?.any isBlank = true

private theorem pieces_joined {entries : List Entry} (hne : entries ≠ []) :
    Balance.fresh.pieces [','] (joined entries) = entries.map Entry.text := by
  induction entries with
  | nil => exact absurd rfl hne
  | cons e entries ih =>
    have hentry (t : Text) : Balance.fresh.pieces [','] (e.text ++ t) =
        (Balance.fresh.pieces [','] t).modifyHead (e.text ++ ·) := by
      have havoids : Balance.Avoids Text.endsEntry [] Balance.fresh none e.text :=
        e.avoids rfl (.inl rfl)
      have hcommas : Balance.Avoids (fun _ t ↦ t.head? == some ',') [] Balance.fresh none e.text :=
        havoids.mono fun before t h ↦ by rw [Text.endsEntry, h, Bool.true_or]
      rw [Balance.pieces_of_avoids hcommas, e.run_fresh]
    rcases entries with - | ⟨f, entries⟩
    · have hlast := hentry []
      rw [List.append_nil] at hlast
      rw [joined_singleton, hlast, Balance.pieces, List.modifyHead_cons, List.append_nil]
      rfl
    · rw [joined_cons_cons, hentry, Balance.pieces, if_pos (by decide),
        Balance.step_fresh (by decide), ih (List.cons_ne_nil f entries), List.modifyHead_cons,
        List.append_nil]
      rfl

private theorem avoids_joined {entries : List Entry} (hne : entries ≠ []) {rest : Text}
    {before : Option Char} (hbefore : before.any isWord = false)
    (hrest : rest.head?.any isWord = false ∨ (joined entries).getLast?.any isBlank = true) :
    Balance.Avoids Text.endsBases rest Balance.fresh before (joined entries) ∧
      Balance.fresh.run (joined entries) = Balance.fresh := by
  have hmono : ∀ before t, Text.endsBases before t = true → Text.endsEntry before t = true :=
    fun before t h ↦ by rw [Text.endsEntry, h, Bool.or_true]
  induction entries generalizing before with
  | nil => exact absurd rfl hne
  | cons e entries ih =>
    rcases entries with - | ⟨f, entries⟩
    · rw [joined_singleton] at hrest ⊢
      exact ⟨(e.avoids hbefore hrest).mono hmono, e.run_fresh⟩
    · have hlast : (joined (e :: f :: entries)).getLast? = (joined (f :: entries)).getLast? := by
        rw [joined_cons_cons, List.getLast?_append_of_ne_nil _ (List.cons_ne_nil _ _),
          List.getLast?_cons_of_ne_nil (joined_ne_nil (List.cons_ne_nil f entries))]
      rw [hlast] at hrest
      have hbehind : (some ',').any isWord = false := rfl
      obtain ⟨havoids, hrun⟩ := ih (List.cons_ne_nil f entries) hbehind hrest
      rw [joined_cons_cons]
      have hcomma : Balance.fresh.step ',' = Balance.fresh := Balance.step_fresh (by decide)
      constructor
      · refine ((e.avoids hbefore (.inl rfl)).mono hmono).append ?_
        rw [e.run_fresh]
        refine ⟨fun _ ↦ rfl, ?_⟩
        rwa [hcomma]
      · rw [Balance.run_append, e.run_fresh, Balance.run_cons, hcomma, hrun]

private theorem Ending.exists_cons (ending : Ending) {before : Option Char}
    (hbefore : ending.isConstraints = true → before.any isWord = false) :
    ending.text = [] ∨ ∃ c t, ending.text = c :: t ∧ Balance.fresh.isOutermost c = true ∧
      Text.endsBases before (c :: t) = true := by
  rcases ending with - | rest | rest | ⟨rest, whole⟩
  · exact .inl rfl
  · exact .inr ⟨'{', rest, rfl, by decide, rfl⟩
  · exact .inr ⟨';', rest, rfl, by decide, rfl⟩
  · have htake : ("where".toList ++ rest).takeWhile isWord = "where".toList := by
      rw [List.takeWhile_append_of_pos Text.isWord_where]
      rcases rest with - | ⟨c, rest⟩
      · rfl
      · rw [List.takeWhile_cons_of_neg (by simpa using whole), List.append_nil]
    refine .inr ⟨'w', "here".toList ++ rest, rfl, by decide, ?_⟩
    rw [Text.endsBases, Bool.or_eq_true, Text.phraseHere_singleton (by decide) Text.isWord_where]
    exact .inr ⟨hbefore rfl, htake⟩

/-- The search stops at what follows the list, or runs to the end of the text. -/
theorem Ending.exists_endingStop? (ending : Ending) {pre : Text}
    (hpre : ending.isConstraints = true → pre.getLast?.any isWord = false) :
    ∃ found, (pre ++ ending.text).endingStop? (Balance.fresh.stops pre.length ending.text) =
        .ok found ∧
      found.getD (pre ++ ending.text).length = pre.length := by
  rcases ending.exists_cons hpre with hnil | ⟨c, t, htext, hout, hends⟩
  · exact ⟨none, by rw [hnil]; rfl, by rw [hnil, List.append_nil]; rfl⟩
  · exact ⟨some pre.length, by rw [htext, Text.endingStop?_of_endsBases hout hends], rfl⟩

private theorem Ending.head?_text (ending : Ending) :
    ending.isConstraints = true ∨ ending.text.head?.any isWord = false := by
  rcases ending with - | rest | rest | ⟨rest, -⟩
  · exact .inr rfl
  · exact .inr rfl
  · exact .inr rfl
  · exact .inl rfl

namespace BaseList

variable (l : BaseList)

/-- How a base list is written, with what follows it. -/
def text : Text := joined l.entries ++ l.ending.text

def names : List Text := l.entries.map fun e ↦ e.name.text

private theorem basesEnd_text {pre : Text} (hpre : pre.getLast?.any isWord = false) :
    (pre ++ l.text).basesEnd pre.length = .ok ((pre ++ joined l.entries).length : Int) := by
  have hending : l.ending.text.head?.any isWord = false ∨
      (joined l.entries).getLast?.any isBlank = true := by
    rcases l.ending.head?_text with hconstraints | hhead
    · exact .inr (l.apart hconstraints)
    · exact .inl hhead
  obtain ⟨havoids, hrun⟩ := avoids_joined l.ne_nil hpre hending
  have hconstraints : l.ending.isConstraints = true →
      (pre ++ joined l.entries).getLast?.any isWord = false := by
    intro h
    have hblank := l.apart h
    rw [List.getLast?_append_of_ne_nil _ (joined_ne_nil l.ne_nil)]
    rw [Option.any_eq_true] at hblank
    obtain ⟨c, hc, hblank⟩ := hblank
    rw [hc]
    exact Text.isWord_of_isBlank c hblank
  obtain ⟨found, hfound, hend⟩ := l.ending.exists_endingStop? hconstraints
  have hsearch := Text.endingStop?_of_avoids havoids
  rw [hrun] at hsearch
  rw [List.append_assoc] at hfound hend
  rw [text, Text.basesEnd, Text.stopsFrom_natCast, List.drop_left]
  simp only [bind, Except.bind, hsearch]
  rw [List.length_append, Int.natCast_add] at hfound
  rw [hfound]
  exact congrArg Except.ok hend

private theorem namesFrom_text {pre : Text} (hpre : pre.getLast?.any isWord = false) :
    (pre ++ l.text).namesFrom pre.length = .ok l.names := by
  have hlist : ((pre ++ l.text).take (pre ++ joined l.entries).length).drop pre.length =
      joined l.entries := by
    rw [text, ← List.append_assoc, List.take_left, List.drop_left]
  have hnames : (joined l.entries).splitOutermost [','] = l.entries.map Entry.text :=
    pieces_joined l.ne_nil
  have hkeep : l.names.filter (!·.isEmpty) = l.names := by
    refine List.filter_eq_self.mpr fun name hname ↦ ?_
    obtain ⟨e, -, rfl⟩ := List.mem_map.mp hname
    simpa using e.name.ne_nil
  have hread : (l.entries.map Entry.text).map Text.entryName = l.names := by
    rw [List.map_map]
    exact List.map_congr_left fun e _ ↦ e.entryName_text
  rw [Text.namesFrom, l.basesEnd_text hpre]
  simp only [bind, Except.bind, pure, Except.pure, Int.toNat_natCast]
  rw [hlist, hnames, hread, hkeep]

/-- The base list of the first type declaration is read completely and in order, whatever the lines
in front of the declaration hold besides type keywords. -/
theorem baseNames_text (h : TypeHeader) {p : Text} (hp : p = [] ∨ p.getLast? = some '\n')
    (hfree : ∀ k ∈ Text.typeKeywords, ¬k <:+: p) :
    (p ++ h.text l.text).baseNames true = .ok l.names ∧
      (p ++ h.text l.text).baseNames false = .ok (l.names.drop 1) := by
  have hfound := h.afterTypeFrom?_text l.text (fun hne ↦ hp.resolve_left hne) hfree
  obtain ⟨u, hu⟩ := h.exists_text_eq l.text
  have htext : p ++ h.text l.text = p ++ u ++ [':'] ++ l.text := by
    rw [hu]
    simp
  have hcolon : (p ++ u ++ [':']).getLast?.any isWord = false := by
    rw [List.getLast?_concat]
    decide
  have hnames := l.namesFrom_text hcolon
  have hstart : (p ++ u ++ [':'] ++ l.text).length - l.text.length = (p ++ u ++ [':']).length := by
    rw [List.length_append, Nat.add_sub_cancel]
  have hread (includeBase : Bool) : (p ++ h.text l.text).baseNames includeBase =
      .ok (if includeBase then l.names else l.names.drop 1) := by
    rw [htext] at hfound ⊢
    rw [Text.baseNames, hfound]
    dsimp only
    rw [h.afterTypeParameters_afterName]
    simp only [bind, Except.bind, hstart, hnames]
    rfl
  exact ⟨hread true, hread false⟩

/-- A record with type parameters, a primary constructor and a constraint, behind a line with an
attribute and one of its modifiers. The arguments hold commas, a brace and the word. -/
theorem baseNames_text_recordStruct : ∃ (h : TypeHeader) (l : BaseList),
    h.text l.text = "\tsealed record struct C<D, E>(D F) : ".toList ++
      "G<H<D, (E, D)>>(x, \" where \x7b\"), I.wherever ,\nj::K where D : new() \x7b \x7d".toList ∧
    Text.baseNames ("using A;\n[B] public\n".toList ++ h.text l.text) true =
      .ok ["G".toList, "I.wherever".toList, "j::K".toList] := by
  let header : TypeHeader := {
    indent := ⟨['\t'], by decide⟩
    modifiers := [⟨"sealed".toList, by decide, ⟨[' '], by decide⟩, by decide⟩]
    keyword := ⟨"record".toList, by decide, ⟨[' '], by decide⟩, by decide⟩
    second := some ⟨"struct".toList, by decide, ⟨[' '], by decide⟩, by decide⟩
    name := ⟨false, "C".toList, by decide, by decide⟩
    parameters := some ⟨"<D, E>".toList, by decide, by decide⟩
    blanks := ⟨[], by decide⟩
    primary := some ⟨"(D F)".toList, by decide, by decide⟩
    gap := ⟨[' '], by decide⟩ }
  let base : Entry := ⟨⟨[' '], by decide⟩, ⟨"G".toList, .of_all (by decide), by decide⟩,
    by decide,
    [.typeArguments ⟨"<H<D, (E, D)>>".toList, by decide, by decide⟩ (by decide),
      .arguments ⟨"(x, \" where \x7b\")".toList, by decide, by decide⟩ (by decide)]⟩
  let dotted : Entry := ⟨⟨[' '], by decide⟩,
    ⟨"I.wherever".toList, .of_all (by decide), by decide⟩, by decide,
    [.gap ⟨[' '], by decide⟩]⟩
  let aliased : Entry := ⟨⟨['\n'], by decide⟩,
    ⟨"j::K".toList, .part (by decide) (.colons (.part (by decide) .nil)), by decide⟩, by decide,
    [.gap ⟨[' '], by decide⟩]⟩
  let list : BaseList := {
    entries := [base, dotted, aliased]
    ne_nil := List.cons_ne_nil _ _
    ending := .constraints " D : new() \x7b \x7d".toList (by decide)
    apart := fun _ ↦ by decide }
  have hscan : ∀ k ∈ Text.typeKeywords, ∀ t ∈ "using A;\n[B] public\n".toList.tails,
      k.isPrefixOf t = false := by decide
  have hfree : ∀ k ∈ Text.typeKeywords, ¬k <:+: "using A;\n[B] public\n".toList := by
    intro k hk hinfix
    obtain ⟨t, hprefix, hsuffix⟩ := List.infix_iff_prefix_suffix.mp hinfix
    have hfalse := hscan k hk t ((List.mem_tails _ _).mpr hsuffix)
    rw [List.isPrefixOf_iff_prefix.mpr hprefix] at hfalse
    exact absurd hfalse (by decide)
  have hbases := list.baseNames_text header (.inr (by decide)) hfree
  exact ⟨header, list, by rfl, hbases.1⟩

end BaseList

end Written

end CSharpOutline
