import CSharpOutline.Proofs.Head.Squeeze
import CSharpOutline.Proofs.Member.Opening

/-!
# The name in a signature

The text of a block is cut off at the opener of the body and has its blanks collapsed. The head that
the scan read is still there: the text of the block is read with the same modifiers and the same
name, blanks aside, and up to the parameter list of a method or to the very end for a property
(`Document.member?_name`). So the name of a member can be had from its signature alone.

The head is cut off first (`Head.Reads.of_append`) and squeezed then (`Head.Reads.squeeze`).
-/

namespace CSharpOutline

open Text CSharpOutline.Joined

namespace Joined

private theorem not_mem_join {lines : List Text} (h : ∀ line ∈ lines, '\n' ∉ line) :
    '\n' ∉ join [] lines := by
  induction lines using List.reverseRecOn with
  | nil => simp [join]
  | append_singleton lines line ih =>
    have hline : '\n' ∉ piece line := by
      obtain ⟨b, e, -, -, -, heq⟩ := exists_eq_append_trim line.withoutComment
      intro hmem
      refine h line (by simp) ((prefix_withoutComment line).subset ?_)
      rw [heq]
      exact List.mem_append_left _ (List.mem_append_right _ hmem)
    have ih := ih fun l hl ↦ h l (List.mem_append_left _ hl)
    have hseparator : '\n' ∉ separator (join [] lines) (piece line) := by
      rw [separator]
      split <;> decide
    rw [join_concat, joinLine]
    split
    · exact ih
    · simp only [List.mem_append, not_or]
      exact ⟨⟨ih, hseparator⟩, hline⟩

end Joined

namespace Scan

/-- The joined text on which a scan decides, if it comes to a decision: the text after the first
line that does not leave the declaration open. -/
def decided? (start : Nat) (joined : Joined) (number : Nat) : List Text → Option Text
  | [] => none
  | line :: rest =>
    if start < number ∧ line.endsMember then none
    else
      let joined := joined.push number line
      match Verdict.ofText joined.text with
      | .ok .undecided => decided? start joined (number + 1) rest
      | _ => some joined.text

private theorem Decides.decided?_pushAll {read rest : List Text} {n : Nat} {kind : Kind}
    {opener : Opener} {t : Text} (h : Decides (read ++ rest) n kind opener t)
    (hle : read.length ≤ n) (start : Nat) :
    decided? start (pushAll {} start read) (start + read.length) rest =
      some (join [] ((read ++ rest).take (n + 1))) := by
  induction rest generalizing read with
  | nil =>
    have hlt := h.lt
    rw [List.append_nil] at hlt
    omega
  | cons line rest ih =>
    have hjoined : (pushAll {} start read).push (start + read.length : Nat) line =
        pushAll {} start (read ++ [line]) := (pushAll_concat ..).symm
    have hend : ¬(start < start + read.length ∧ line.endsMember) := by
      rintro ⟨hlt, hline⟩
      have hgoes := h.goesOn read.length hle (by omega)
      rw [getD_append_cons, hline] at hgoes
      exact absurd hgoes (by decide)
    rw [decided?, if_neg hend]
    simp only [hjoined, Verdict.ofText_eq, text_pushAll]
    rcases h.reading hle with ⟨rfl, hmember⟩ | ⟨hlt, hundecided⟩
    · rw [hmember, take_append_cons]
      rfl
    · rw [hundecided]
      have hassoc : read ++ line :: rest = (read ++ [line]) ++ rest := by simp
      rw [hassoc] at h ⊢
      have hnext := ih h (by rw [List.length_append]; exact hlt)
      rw [List.length_append, List.length_singleton] at hnext
      exact hnext

theorem Decides.decided? {lines : List Text} {n : Nat} {kind : Kind} {opener : Opener} {t : Text}
    (h : Decides lines n kind opener t) (start : Nat) :
    decided? start {} start lines = some (join [] (lines.take (n + 1))) := by
  have hread : Decides ([] ++ lines) n kind opener t := h
  exact hread.decided?_pushAll (Nat.zero_le n) start

theorem head?_ne_of_read? {t : Text} {opener : Opener} (h : Opener.read? t = some opener) :
    t.head? ≠ some '(' ∧ t.head? ≠ some ':' := by
  obtain ⟨d, r, rfl, -, hsymbol⟩ := Opener.exists_cons_of_read? h
  rw [List.head?_cons, ← hsymbol]
  cases opener <;> decide

private theorem exists_eq_parameters_append {r rest : Text} {opener : Opener}
    (h : Balance.fresh.opening? (afterGroup ('(' :: r)) = some (opener, rest)) :
    ∃ t, '(' :: r = '(' :: t ++ rest := by
  obtain ⟨q, hq⟩ := (Balance.opening?_suffix h).1
  obtain ⟨g, hg⟩ := afterGroup_suffix ('(' :: r)
  have hlt := length_afterGroup_lt r (c := '(') (.inr rfl)
  cases g with
  | nil =>
    rw [List.nil_append] at hg
    rw [hg] at hlt
    exact absurd hlt (Nat.lt_irrefl _)
  | cons c g =>
    obtain ⟨rfl, hr⟩ := List.cons.inj hg
    exact ⟨g ++ q, by rw [← hr, ← hq]; simp⟩

/-- The head that shows a member is read in the text in front of the opener too: up to the
parameters of a method, and to the end of the text for a property. -/
theorem exists_reads {shown rest : Text} {kind : Kind} {opener : Opener}
    (h : Reading.ofText (shown ++ rest) = .member kind opener rest) :
    ∃ hasModifiers name s boundary, Head.Reads (shown ++ rest) hasModifiers name (s ++ rest) ∧
      Boundary.read? (s ++ rest) = some (some boundary) ∧ Head.Reads shown hasModifiers name s ∧
      ((kind = .method ∧ ∃ t, s = '(' :: t) ∨ (kind ≠ .method ∧ s = [])) := by
  obtain ⟨r, hr⟩ := Reading.exists_boundary (t := shown ++ rest) (by rw [h]; simp)
  obtain ⟨hparen, hcolon⟩ := head?_ne_of_read? (Reading.ofText_suffix h).2
  rw [Reading.ofText_of_boundary hr] at h
  obtain ⟨s, boundary, rfl, hboundary, hs⟩ : ∃ s boundary, r = s ++ rest ∧
      Boundary.read? (s ++ rest) = some (some boundary) ∧
      ((kind = .method ∧ ∃ t, s = '(' :: t) ∨ (kind ≠ .method ∧ s = [])) := by
    rcases Reading.member_cases h with
      ⟨rfl, ⟨r, rfl⟩, hopening⟩ | ⟨rfl, rfl, rfl, r, rfl⟩ | ⟨rfl, rfl, rfl, r, rfl⟩
    · obtain ⟨t, ht⟩ := exists_eq_parameters_append hopening
      exact ⟨'(' :: t, .parameters, ht, rfl, .inl ⟨rfl, t, rfl⟩⟩
    · exact ⟨[], .accessors, rfl, rfl, .inr ⟨by decide, rfl⟩⟩
    · exact ⟨[], .arrow, rfl, rfl, .inr ⟨by decide, rfl⟩⟩
  have hne : s ++ rest ≠ [] := by
    intro hnil
    rw [hnil] at hboundary
    exact absurd hboundary (by simp [Boundary.read?])
  obtain ⟨hasModifiers, name, hreads⟩ := Head.exists_reads hr hne
  exact ⟨hasModifiers, name, s, boundary, hreads, hboundary, hreads.of_append hparen hcolon, hs⟩

end Scan

namespace Head

private theorem Reads.exists_parse? {text name rest : Text} {hasModifiers : Bool}
    {boundary : Option Boundary} (h : Reads text hasModifiers name rest)
    (hboundary : Boundary.read? rest = some boundary) :
    ∃ head, Head.parse? text = some head ∧ head.name = name ∧ head.hasModifiers = hasModifiers ∧
      head.boundary = boundary := by
  have hparse := h.parse?
  rw [hboundary, Option.map_some, Option.map_eq_some_iff] at hparse
  obtain ⟨head, hhead, heq⟩ := hparse
  obtain ⟨hname, hmodifiers, hend⟩ : head.name = name ∧ head.hasModifiers = hasModifiers ∧
      head.boundary = boundary := by simpa using heq
  exact ⟨head, hhead, hname, hmodifiers, hend⟩

private theorem Reads.collapse {text name rest : Text} {hasModifiers : Bool} (hn : '\n' ∉ text)
    (h : Reads text hasModifiers name rest) :
    Reads text.collapse hasModifiers name.collapse rest.squeeze := by
  obtain ⟨c, n, rfl, hc⟩ := h.exists_cons
  have hn' : '\n' ∉ text.trimStart := fun h ↦ hn ((trimStart_suffix text).subset h)
  rw [collapse_eq_squeeze, collapse_eq_squeeze, trimStart_cons hc]
  exact h.trimStart.squeeze hn'

end Head

private theorem memberName?_of_parse? {text : Text} {head : Head} (h : Head.parse? text = some head)
    (hname : head.name ≠ []) (hboundary : head.boundary.isSome ∨ head.hasModifiers) :
    memberName? text = some head.name := by
  rw [memberName?, h]
  refine if_neg ?_
  rintro (hnil | ⟨hnone, hno⟩)
  · exact hname (List.isEmpty_iff.mp hnil)
  · rcases hboundary with hsome | hmodifiers
    · rw [Option.isNone_iff_eq_none.mp hnone] at hsome
      exact absurd hsome (by decide)
    · rw [hmodifiers] at hno
      exact absurd hno (by decide)

/-- The signature of a member is read as its declaration was, and gives the same name. -/
theorem Document.member?_name (d : Document) (modifier : Text) (line : Int) {b : Block}
    (hcut : d.toSnapshot.IsCut) (h : d.member? modifier line = .ok (some b)) :
    ∃ text head shown,
      Scan.decided? line.toNat {} line.toNat (d.toSnapshot.lines.drop line.toNat) = some text ∧
      Head.parse? text = some head ∧ Head.parse? b.text = some shown ∧
      shown.name = head.name.collapse ∧ shown.hasModifiers = head.hasModifiers ∧
      shown.boundary = (if b.isMethod then some .parameters else none) ∧
      (b.isMethod = true ∨ head.hasModifiers = true →
        memberName? b.text = some head.name.collapse) := by
  obtain ⟨start, o, rfl, -, -, ⟨n, rest, hopens⟩, hblock⟩ :=
    (member?_eq_some_iff d modifier line b).mp h
  obtain ⟨-, hkind, -, htext⟩ := Opening.toBlock_eq_ok_iff.mp hblock
  have hmember := hopens.decides.member
  rw [hopens.text] at hmember
  obtain ⟨hasModifiers, name, s, boundary, hreads, hboundary, hshown, hs⟩ :=
    Scan.exists_reads hmember
  obtain ⟨head, hhead, rfl, rfl, -⟩ := hreads.exists_parse? hboundary
  have hunbroken : '\n' ∉ o.shown := by
    have hjoin : '\n' ∉ join [] ((d.toSnapshot.lines.drop start).take (n + 1)) :=
      not_mem_join fun l hl ↦ hcut l (List.mem_of_mem_drop (List.mem_of_mem_take hl))
    rw [hopens.text] at hjoin
    exact fun h ↦ hjoin (List.mem_append_left _ h)
  have hend : Boundary.read? s.squeeze =
      some (if b.isMethod then some .parameters else none) := by
    rw [Block.isMethod, hkind]
    rcases hs with ⟨hmethod, t, rfl⟩ | ⟨hproperty, rfl⟩
    · rw [squeeze_cons (by decide), hmethod]
      rfl
    · rw [if_neg (by simpa using hproperty)]
      rfl
  have hcollapsed := hshown.collapse hunbroken
  obtain ⟨shown, hparse, hname, hmodifiers, hboundary'⟩ := hcollapsed.exists_parse? hend
  rw [← htext] at hparse
  refine ⟨_, head, shown, hopens.decides.decided? start, ?_, hparse, hname, hmodifiers,
    hboundary', fun hor ↦ ?_⟩
  · rw [hopens.text]
    exact hhead
  · rw [← hname]
    refine memberName?_of_parse? hparse ?_ ?_
    · obtain ⟨c, n, hcons, -⟩ := hcollapsed.exists_cons
      rw [hname, hcons]
      exact List.cons_ne_nil c n
    · rw [hboundary', hmodifiers]
      refine hor.imp_left fun hmethod ↦ ?_
      rw [if_pos hmethod]
      rfl

/-- A constructor of a generic type, written with many blanks and over two lines. -/
def spacedConstructor : Document :=
  .live "public  Box<int ,\n   string\t>  ( int  a )  \x7b \x7d".toList

theorem member?_name_spacedConstructor :
    spacedConstructor.member? "public".toList 0 =
      .ok (some ⟨.method, 0, 1, "public Box<int ,string > ( int a )".toList⟩) ∧
    ∃ text head shown,
      Scan.decided? 0 {} 0 (spacedConstructor.toSnapshot.lines.drop 0) = some text ∧
      Head.parse? text = some head ∧
      Head.parse? "public Box<int ,string > ( int a )".toList = some shown ∧
      shown.name = head.name.collapse ∧ shown.hasModifiers = head.hasModifiers ∧
      shown.boundary = some .parameters ∧
      memberName? "public Box<int ,string > ( int a )".toList = some head.name.collapse := by
  have h : spacedConstructor.member? "public".toList 0 =
      .ok (some ⟨.method, 0, 1, "public Box<int ,string > ( int a )".toList⟩) := by decide +kernel
  have hcut : spacedConstructor.toSnapshot.IsCut := Snapshot.isCut_ofText _
  obtain ⟨text, head, shown, htext, hhead, hshown, hname, hmodifiers, hboundary, hmember⟩ :=
    Document.member?_name _ _ _ hcut h
  exact ⟨h, text, head, shown, htext, hhead, hshown, hname, hmodifiers, hboundary,
    hmember (.inl rfl)⟩

end CSharpOutline
