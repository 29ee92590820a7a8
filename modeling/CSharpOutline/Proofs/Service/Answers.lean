import CSharpOutline.Proofs.Declaration.Bases
import CSharpOutline.Proofs.Document.RoundTrip
import CSharpOutline.Proofs.Member.Cursor
import CSharpOutline.Service.Endpoint

/-!
# Every accepted request is answered

Only a position that the text does not have is a mistake of the caller, and such a position can be
asked for in one way: by the line of a signature. All other faults would be the service's own. They
do not occur: the reading of base lists stays inside the text, a scan fails only outside the
document, and the search at the cursor scans at lines of the document only (`Query.exists_answer`).

A signature that is shown belongs to a block, so it has a kind, and its text is never empty: the
text of a block ends in no blank, while an access modifier is cut off only together with a blank
behind it (`Text.withoutAccess_ne_nil`).
-/

namespace CSharpOutline

/-! ## Signatures

A block has a kind, and its text is trimmed and not empty, so some of it is left without the access
modifiers. A line of the document has the signature of its member or that of none. -/

namespace Text

theorem isBlank_last_of_suffix {r t : Text} (h : r <:+ t)
    (hlast : ∀ c, t.getLast? = some c → isBlank c = false) {c : Char} (hc : r.getLast? = some c) :
    isBlank c = false := by
  refine hlast c ?_
  rw [← getLast?_of_suffix h (List.ne_nil_of_mem (List.mem_of_getLast? hc)), hc]

/-- The blanks that are skipped do not reach the end of a text that ends in no blank. -/
theorem ne_nil_of_skipBlanks? {t rest : Text}
    (hlast : ∀ c, t.getLast? = some c → isBlank c = false)
    (h : t.skipBlanks? = some rest) : rest ≠ [] := by
  rintro rfl
  cases t with
  | nil => simp [skipBlanks?] at h
  | cons c t =>
    rw [skipBlanks?] at h
    split at h
    · next hc =>
      have hblank : allBlank (c :: t) = true := by
        rw [allBlank_cons, hc, trimStart_eq_nil_iff.mp (Option.some.inj h), Bool.and_self]
      have hne : c :: t ≠ [] := List.cons_ne_nil c t
      have hvisible := hlast _ (List.getLast?_eq_some_getLast hne)
      rw [allBlank_iff.mp hblank _ (List.getLast_mem hne)] at hvisible
      exact absurd hvisible (by decide)
    · simp at h

private theorem ne_nil_of_afterKeyword? {keywords : List Text} {t rest : Text}
    (hlast : ∀ c, t.getLast? = some c → isBlank c = false)
    (h : afterKeyword? keywords t = some rest) : rest ≠ [] := by
  rw [afterKeyword?] at h
  split at h
  · exact ne_nil_of_skipBlanks?
      (fun c hc ↦ isBlank_last_of_suffix (List.dropWhile_suffix _) hlast hc) h
  · simp at h

private theorem dropKeywords_ne_nil {keywords : List Text} {t : Text} (hne : t ≠ [])
    (hlast : ∀ c, t.getLast? = some c → isBlank c = false) :
    (dropKeywords keywords t).2 ≠ [] := by
  fun_induction dropKeywords keywords t with
  | case1 t _ => exact hne
  | case2 t rest hrest ih =>
    exact ih (ne_nil_of_afterKeyword? hlast hrest)
      fun c hc ↦ isBlank_last_of_suffix (Text.afterKeyword?_suffix hrest) hlast hc

theorem withoutAccess_ne_nil {t : Text} (h : t.IsTrimmed) (hne : t ≠ []) :
    t.withoutAccess ≠ [] := by
  rw [withoutAccess, trimStart_of_head h.head]
  have hrest : (dropKeywords accessModifiers t).2 ≠ [] := dropKeywords_ne_nil hne h.last
  split
  · next rest heq =>
    rwa [heq] at hrest
  · exact hne

end Text

/-- A signature that belongs to a member has a kind and a text. -/
structure Signature.IsShown (s : Signature) : Prop where
  kind_ne : s.kind ≠ .unknown
  text : ∃ t, t ≠ [] ∧ s.text = some t

theorem Document.text_of_member? {d : Document} {modifier : Text} {line : Int} {b : Block}
    (h : d.member? modifier line = .ok (some b)) :
    b.kind ≠ .unknown ∧ b.text.IsTrimmed ∧ b.text ≠ [] := by
  obtain ⟨start, o, rfl, -, -, ⟨n, rest, hopens⟩, hblock⟩ :=
    (member?_eq_some_iff d modifier line b).mp h
  obtain ⟨-, hkind, -, htext⟩ := Opening.toBlock_eq_ok_iff.mp hblock
  have hmember := hopens.decides.member
  rw [hopens.text] at hmember
  refine ⟨?_, ?_, ?_⟩
  · obtain ⟨r, hr⟩ := Reading.exists_boundary (t := o.shown ++ rest) (by rw [hmember]; simp)
    rw [Reading.ofText_of_boundary hr] at hmember
    rw [hkind]
    rcases Reading.member_cases hmember with ⟨hk, -⟩ | ⟨hk, -⟩ | ⟨hk, -⟩ <;> simp [hk]
  · rw [htext]
    exact (Text.isSpaced_collapse o.shown).toIsTrimmed
  · rw [htext]
    exact Text.collapse_ne_nil (Reading.visible_ne_nil_of_member hmember)

private theorem Document.exists_signatureAt {d : Document} (modifier : Text) {line : Nat}
    (h : line < d.toSnapshot.lines.length) :
    ∃ s, d.signatureAt modifier line = .ok s ∧ (s = .unknown ∨ s.IsShown) := by
  obtain ⟨found, hfound⟩ := d.exists_member? modifier h
  rw [signatureAt, hfound]
  cases found with
  | none => exact ⟨.unknown, rfl, .inl rfl⟩
  | some b =>
    obtain ⟨hkind, -, hne⟩ := text_of_member? hfound
    exact ⟨b.signature, rfl, .inr ⟨hkind, b.text, hne, rfl⟩⟩

private theorem Document.signatureAt_of_le {d : Document} (modifier : Text) {line : Nat}
    (h : d.toSnapshot.lines.length ≤ line) (hline : isWritable line = true) :
    d.signatureAt modifier line =
      .error (.outsideDocument line (d.toSnapshot.lines.length - 1)) := by
  have hlt : line < leastUnwritable := isWritable_iff.mp hline
  rw [signatureAt, member?_of_outside modifier (.inr (Int.ofNat_le.mpr h)),
    Fault.naming_outsideDocument, if_pos ⟨hlt, h.trans hlt.le⟩]
  rfl

namespace Editor

private theorem isShown_innerSignature {e : Editor} {b : Block}
    (h : e.memberAtCursor? = .ok (some b)) : (innerSignature b).IsShown := by
  obtain ⟨s, -, hmember, -⟩ := (memberAtCursor?_eq_some_iff e b).mp h
  obtain ⟨hkind, htrimmed, hne⟩ := Document.text_of_member? hmember
  exact ⟨hkind, b.text.withoutAccess, Text.withoutAccess_ne_nil htrimmed hne, rfl⟩

/-- The signatures of the method and of the property around the cursor can be asked for, and at most
one of them is there. -/
theorem exists_signatures (e : Editor) :
    ∃ method property : Option Signature,
      e.methodSignature? = .ok method ∧ e.propertySignature? = .ok property ∧
      (∀ s ∈ method, s.IsShown) ∧ (∀ s ∈ property, s.IsShown) ∧
      (method = none ∨ property = none) := by
  obtain ⟨found, hfound⟩ := e.exists_memberAtCursor?
  rw [methodSignature?, propertySignature?, hfound]
  refine ⟨_, _, rfl, rfl, ?_⟩
  cases found with
  | none => simp
  | some b =>
    have hshown := isShown_innerSignature hfound
    cases hmethod : b.isMethod <;> simp [hmethod, hshown]

end Editor

/-! ## Queries

Each query is answered for itself. The only one that can fail is that for a line behind the last
one, and the number of that line comes from a body, so it can be written out. -/

namespace Service

namespace Checked

variable {α β : Type}

theorem exists_of_map {x : Checked α} {f : α → β} {b : β} (h : x.map f = .ok b) :
    ∃ a, x = .ok a ∧ f a = b := by
  cases x with
  | error issues => simp [Except.map] at h
  | ok a => exact ⟨a, rfl, Except.ok.inj h⟩

theorem of_inside {part : Part} {x : Checked α} {a : α} (h : x.inside part = .ok a) :
    x = .ok a := by
  cases x with
  | error issues => simp [inside] at h
  | ok a' => exact h

private theorem of_both {x : Checked α} {y : Checked β} {a : α} {b : β}
    (h : x.both y = .ok (a, b)) : x = .ok a ∧ y = .ok b := by
  cases x <;> cases y <;> simp_all [both]

end Checked

/-- What a field that has to be there is read as comes from its value. -/
theorem exists_of_required {α : Type} {read : Value → Checked α} {name : String} {fields : Fields}
    {a : α} (h : required read name fields = .ok a) : ∃ v, read v = .ok a := by
  unfold required at h
  split at h
  · next v _ => exact ⟨v, Checked.of_inside h⟩
  · simp [Checked.fail, Checked.inside] at h

def Endpoint.isSignature : Endpoint → Bool
  | .lineSignature | .methodSignature | .propertySignature => true
  | _ => false

/-- A value that shows a signature: its text is null exactly for the label of no member, and is
otherwise not empty. -/
structure Value.ShowsSignature (v : Value) : Prop where
  null_iff : v.field? "signature" = some .null ↔
    v.field? "signature_type" = some (.ofString "Unknown")
  ne_nil : v.field? "signature" ≠ some .null →
    ∃ t : Text, t ≠ [] ∧ v.field? "signature" = some (.text t)

namespace Query

private theorem showsSignature_ofSignature {s : Option Signature}
    (h : ∀ shown ∈ s, shown = .unknown ∨ shown.IsShown) : (ofSignature s).ShowsSignature := by
  have hunknown : (ofSignature (some .unknown)).ShowsSignature :=
    ⟨⟨fun _ ↦ rfl, fun _ ↦ rfl⟩, fun hne ↦ absurd rfl hne⟩
  cases s with
  | none => exact hunknown
  | some s =>
    rcases h s rfl with rfl | ⟨hkind, t, hne, htext⟩
    · exact hunknown
    · have hsignature : (ofSignature (some s)).field? "signature" = some (.text t) := by
        rw [show (ofSignature (some s)).field? "signature" = some (.ofText? s.text) from rfl, htext]
        rfl
      have hlabel : s.kind.label.toList ≠ "Unknown".toList := by
        cases hk : s.kind with
        | unknown => exact absurd hk hkind
        | method | fullProperty | arrowProperty => decide
      refine ⟨⟨fun hnull ↦ ?_, fun htype ↦ ?_⟩, fun _ ↦ ⟨t, hne, hsignature⟩⟩
      · rw [hsignature] at hnull
        exact absurd hnull (by simp)
      · exact absurd (Value.text.inj (Option.some.inj htype)) hlabel

def endpoint : Query → Endpoint
  | .health => .health
  | .namespaceName .. => .namespaceName
  | .className .. => .className
  | .memberName .. => .memberName
  | .baseNames .. => .baseNames
  | .lineSignature .. => .lineSignature
  | .methodSignature .. => .methodSignature
  | .propertySignature .. => .propertySignature
  | .currentLine .. => .currentLine
  | .lineEnding .. => .lineEnding
  | .usings .. => .usings
  | .replaceUsings .. => .replaceUsings

private theorem endpoint_ofFields {fields : Fields} {e : Endpoint} {q : Query}
    (h : ofFields fields e = .ok q) : q.endpoint = e := by
  cases e with
  | health => rw [← Except.ok.inj h]; rfl
  | _ =>
    obtain ⟨_, -, rfl⟩ := Checked.exists_of_map h
    rfl

/-- A query is read from the fields of a body, unless it is about the service itself. -/
theorem ofFields_of_ofBody {body : Option Value} {e : Endpoint} {q : Query}
    (h : ofBody e body = .ok q) :
    e = .health ∧ q = .health ∨ ∃ fields, ofFields fields e = .ok q := by
  unfold ofBody at h
  split at h
  · exact .inl ⟨rfl, (Except.ok.inj h).symm⟩
  · simp [Checked.fail, Checked.inside] at h
  · simp [Checked.fail, Checked.inside] at h
  · next fields _ => exact .inr ⟨fields, Checked.of_inside h⟩
  · simp [Checked.fail, Checked.inside] at h

theorem endpoint_ofBody {body : Option Value} {e : Endpoint} {q : Query}
    (h : ofBody e body = .ok q) : q.endpoint = e := by
  rcases ofFields_of_ofBody h with ⟨rfl, rfl⟩ | ⟨fields, hfields⟩
  · rfl
  · exact endpoint_ofFields hfields

private theorem isWritable_of_readCount {v : Value} {n : Nat} (h : readCount v = .ok n) :
    isWritable n = true := by
  unfold readCount at h
  split at h
  · simp at h
  · next m _ =>
    split at h
    · simp [Checked.fail] at h
    · split at h
      · next hm =>
        obtain rfl : m = n := by
          have hn := Except.ok.inj h
          omega
        exact hm
      · simp [Checked.fail] at h

/-- The line of a signature that is asked for can be written out. -/
theorem isWritable_of_ofBody {body : Option Value} {e : Endpoint} {t modifier : Text} {line : Nat}
    (h : ofBody e body = .ok (.lineSignature t line modifier)) : isWritable line = true := by
  obtain rfl : .lineSignature = e := endpoint_ofBody h
  obtain ⟨⟨⟩, -⟩ | ⟨fields, hfields⟩ := ofFields_of_ofBody h
  obtain ⟨⟨t', line', modifier'⟩, hread, hquery⟩ := Checked.exists_of_map hfields
  obtain ⟨-, rfl, -⟩ := Query.lineSignature.inj hquery
  obtain ⟨-, hread⟩ := Checked.of_both hread
  obtain ⟨v, hv⟩ := exists_of_required (Checked.of_both hread).1
  exact isWritable_of_readCount hv

/-- A query asks for the signature at a line behind the last one of its text. -/
def IsPastEnd : Query → Prop
  | .lineSignature t line _ => (t.splitOn '\n').length ≤ line
  | _ => False

instance : DecidablePred IsPastEnd
  | .lineSignature t line _ => inferInstanceAs (Decidable ((t.splitOn '\n').length ≤ line))
  | .health | .namespaceName _ | .className _ | .memberName _ | .baseNames .. | .methodSignature ..
  | .propertySignature .. | .currentLine .. | .lineEnding _ | .usings _ | .replaceUsings .. =>
    inferInstanceAs (Decidable False)

theorem length_lines_ofText (t : Text) :
    (Document.snapshot (.ofText t)).toSnapshot.lines.length = (t.splitOn '\n').length := by
  rw [← Text.lines_eq_splitOn, ← Snapshot.size_ofText]
  rfl

private theorem answer_of_isPastEnd {body : Option Value} {e : Endpoint} {q : Query}
    (hbody : ofBody e body = .ok q) (h : q.IsPastEnd) :
    ∃ fault, q.answer = .error fault ∧ fault.isPosition = true := by
  cases q with
  | lineSignature t line modifier =>
    rw [IsPastEnd, ← length_lines_ofText] at h
    rw [answer, Document.signatureAt_of_le modifier h (isWritable_of_ofBody hbody)]
    exact ⟨_, rfl, rfl⟩
  | _ => exact absurd h id

theorem exists_answer {q : Query} (h : ¬ q.IsPastEnd) :
    ∃ body, q.answer = .ok body ∧ (q.endpoint.isSignature = true → body.ShowsSignature) := by
  cases q with
  | baseNames t includeBase =>
    obtain ⟨names, hnames⟩ := t.exists_baseNames includeBase
    rw [answer, hnames]
    exact ⟨_, rfl, nofun⟩
  | lineSignature t line modifier =>
    rw [IsPastEnd, ← length_lines_ofText, Nat.not_le] at h
    obtain ⟨s, hs, hshown⟩ := Document.exists_signatureAt modifier h
    rw [answer, hs]
    exact ⟨_, rfl, fun _ ↦ showsSignature_ofSignature (by simpa using hshown)⟩
  | methodSignature t c =>
    obtain ⟨method, -, hmethod, -, hshown, -⟩ := (editor t c).exists_signatures
    rw [answer, hmethod]
    exact ⟨_, rfl, fun _ ↦ showsSignature_ofSignature fun s hs ↦ .inr (hshown s hs)⟩
  | propertySignature t c =>
    obtain ⟨-, property, -, hproperty, -, hshown, -⟩ := (editor t c).exists_signatures
    rw [answer, hproperty]
    exact ⟨_, rfl, fun _ ↦ showsSignature_ofSignature fun s hs ↦ .inr (hshown s hs)⟩
  | _ => exact ⟨_, rfl, nofun⟩

/-- Of the method and the property around a cursor, one is answered with the label of no member. -/
theorem exists_unknown (t : Text) (c : Cursor) :
    ∃ body body', (methodSignature t c).answer = .ok body ∧
      (propertySignature t c).answer = .ok body' ∧
      (body.field? "signature_type" = some (.ofString "Unknown") ∨
        body'.field? "signature_type" = some (.ofString "Unknown")) := by
  obtain ⟨method, property, hmethod, hproperty, -, -, hnone⟩ := (editor t c).exists_signatures
  rw [answer, answer, hmethod, hproperty]
  refine ⟨_, _, rfl, rfl, ?_⟩
  rcases hnone with rfl | rfl
  · exact .inl rfl
  · exact .inr rfl

end Query

/-! ## Requests -/

/-- A request is accepted as a query of an endpoint: it is made by path and method, and its body
passes the checks. -/
structure Request.Asks (r : Request) (e : Endpoint) (q : Query) : Prop where
  path : Endpoint.ofPath? r.path = some e
  method : r.method.toUpper = e.method
  body : Query.ofBody e r.body = .ok q

private theorem respond_of_asks {r : Request} {e : Endpoint} {q : Query} (h : r.Asks e q) :
    respond r = .ofAnswer q.answer := by
  simp only [respond, h.path, h.method, h.body, ne_eq, not_true_eq_false, if_false]

/-- A property and a method below it, on lines that end in different ways. -/
def propertyAboveMethod : Text := "public int A => 1;\r\npublic void F() \x7b\n\x7d".toList

/-- The request for what is at a line of the property and the method. -/
def askAt (path : String) (line : Nat) : Request :=
  ⟨"post", path, some (.object [("text", .text propertyAboveMethod), ("line", .whole line)])⟩

end Service

end CSharpOutline
