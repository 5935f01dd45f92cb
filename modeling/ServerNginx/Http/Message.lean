import ServerNginx.Http.Text

set_option autoImplicit false

/-!
# Messages

A message is a status line, header lines and an empty line, each with its CRLF, and a body. `headOf`
reads the lines back.

* `headOf_ended`: what is written line by line is read back;
* **`message_headText`**: a head of header lines and what follows it are a message.
-/

namespace ServerNginx

open CString CNumber

variable {l name body : List UInt8} {ls headers : List (List UInt8)} {n : ℤ}

/-! ## Reading a message -/

/-- The lines in front of the empty one, and the bytes behind it. -/
def headOfUpTo : ℕ → List UInt8 → Option (List (List UInt8) × List UInt8)
  | 0, _ => none
  | n + 1, b =>
    match nextLine b with
    | none => none
    | some (l, r) => if l = [] then some ([], r) else (headOfUpTo n r).map fun p => (l :: p.1, p.2)

/-- The lines of a message and its body. -/
def headOf (b : List UInt8) : Option (List (List UInt8) × List UInt8) := headOfUpTo b.length b

/-- The version, three digits and a blank. -/
def IsStatusLine (l : List UInt8) : Prop :=
  l.take 9 = ascii "HTTP/1.1 " ∧ ((l.drop 9).take 3).all isDigit = true ∧ l[12]? = some 32

instance (l : List UInt8) : Decidable (IsStatusLine l) := by
  unfold IsStatusLine
  infer_instance

/-- A name, and a value behind a colon. -/
def IsHeaderLine (l : List UInt8) : Prop := ∃ name v, headerParts l = some (name, v) ∧ name ≠ []

/-- The names of the length header. -/
def lengthNames : List (List UInt8) := [ascii "Connect-Length", ascii "Content-Length"]

/-- The value of a length header. -/
def lengthField (l : List UInt8) : Option (List UInt8) :=
  (headerParts l).bind fun p => if p.1 ∈ lengthNames then some (skipBlank p.2) else none

/-- The body has the length that the length headers say, and none without one. -/
def LengthAgrees (headers : List (List UInt8)) (body : List UInt8) : Prop :=
  (headers.filterMap lengthField = [] → body = []) ∧
    ∀ v ∈ headers.filterMap lengthField, v = stdToString body.length

/-- `b` is a message. -/
structure Message (b status : List UInt8) (headers : List (List UInt8)) (body : List UInt8) :
    Prop where
  head : headOf b = some (status :: headers, body)
  status : IsStatusLine status
  headers : ∀ l ∈ headers, IsHeaderLine l

/-- **A message** with a body of the length its headers say. -/
def WellFormed (b : List UInt8) : Prop :=
  ∃ status headers body, Message b status headers body ∧ LengthAgrees headers body

/-- A message without a body, whatever length its headers say. -/
def HeadOnly (b : List UInt8) : Prop := ∃ status headers, Message b status headers []

/-! ## Lines that are written -/

theorem plain_stdToString (n : ℤ) : Plain (stdToString n) := by
  intro c hc
  have hd := toNat_of_mem_stdToString hc
  refine decide_eq_false fun he => ?_
  rcases he with rfl | rfl <;> simp [cr, lf] at hd

/-- **Lines written one after the other** are read back. -/
theorem headOf_ended (hls : ∀ l ∈ ls, l ≠ [] ∧ Plain l) (body : List UInt8) :
    headOf (ended ls ++ (HttpServer.crlf ++ body)) = some (ls, body) := by
  have hn : ∀ n, ls.length < n →
      headOfUpTo n (ended ls ++ (HttpServer.crlf ++ body)) = some (ls, body) := by
    induction ls with
    | nil =>
      intro n hn
      obtain ⟨n, rfl⟩ : ∃ k, n = k + 1 := ⟨n - 1, by omega⟩
      have hline : nextLine (HttpServer.crlf ++ body) = some ([], body) :=
        nextLine_append plain_nil
      simp [headOfUpTo, hline]
    | cons l ls ih =>
      intro n hn
      obtain ⟨n, rfl⟩ : ∃ k, n = k + 1 := ⟨n - 1, by omega⟩
      obtain ⟨⟨hne, hplain⟩, hls⟩ := List.forall_mem_cons.mp hls
      have hline : nextLine (l ++ (HttpServer.crlf ++ (ended ls ++ (HttpServer.crlf ++ body)))) =
          some (l, ended ls ++ (HttpServer.crlf ++ body)) := nextLine_append hplain
      have hrest := ih hls n (by simpa using hn)
      simp only [ended_cons, List.append_assoc] at hline ⊢
      rw [headOfUpTo, hline]
      simp [hne, hrest]
  refine hn _ ?_
  have hle := length_le_ended ls
  have : HttpServer.crlf.length = 2 := rfl
  simp only [List.length_append]
  omega

theorem skipBlank_stdToString (n : ℤ) : skipBlank (32 :: stdToString n) = stdToString n := by
  have hblank : ∀ c ∈ stdToString n, c ∉ blank := by
    intro c hc hb
    have hd := toNat_of_mem_stdToString hc
    simp only [blank, List.mem_cons, List.not_mem_nil, or_false] at hb
    rcases hb with rfl | rfl <;> simp at hd
  have h32 : (32 : UInt8) ∈ blank := by decide
  unfold skipBlank strspn
  cases hs : stdToString n with
  | nil => simp [h32]
  | cons c cs => simp [h32, hblank c (hs ▸ List.mem_cons_self)]

/-- A header line of the name `name`. -/
structure Header (name l : List UInt8) : Prop where
  plain : Plain l
  line : ∃ v, headerParts l = some (name, v)

/-- Another header than the length. -/
def OtherHeader (l : List UInt8) : Prop := ∃ name, name ≠ [] ∧ name ∉ lengthNames ∧ Header name l

theorem headerParts_append (hname : (58 : UInt8) ∉ name) (v : List UInt8) :
    headerParts (name ++ 58 :: v) = some (name, v) := by
  have hi : strchr (name ++ 58 :: v) 58 = some name.length := by
    rw [strchr, List.findIdx?_append, List.findIdx?_eq_none_iff.mpr]
    · simp [List.findIdx?_cons]
    · exact fun c hc => decide_eq_false fun h => hname (h ▸ hc)
  simp [headerParts, hi]

theorem header_append {text v : List UInt8} (htext : text = name ++ [58, 32])
    (hname : (58 : UInt8) ∉ name) (hplain : Plain text) (hv : Plain v) :
    Header name (text ++ v) where
  plain := plain_append.mpr ⟨hplain, hv⟩
  line := ⟨32 :: v, by
    rw [htext, List.append_assoc]
    exact headerParts_append hname (32 :: v)⟩

theorem Header.ne_nil (hh : Header name l) : l ≠ [] := by
  rintro rfl
  obtain ⟨v, hv⟩ := hh.line
  cases hv

theorem OtherHeader.lengthField_eq_none (hl : OtherHeader l) : lengthField l = none := by
  obtain ⟨name, -, hname, hh⟩ := hl
  obtain ⟨v, hv⟩ := hh.line
  simp [lengthField, hv, hname]

section Length

variable {text : List UInt8} (htext : text = name ++ [58, 32]) (hname : (58 : UInt8) ∉ name)
include htext hname

theorem header_numberLine (hplain : Plain text) (n : ℤ) : Header name (numberLine text n) :=
  header_append htext hname hplain (plain_stdToString n)

theorem lengthField_numberLine (hmem : name ∈ lengthNames) (n : ℤ) :
    lengthField (numberLine text n) = some (stdToString n) := by
  have hparts : headerParts (numberLine text n) = some (name, 32 :: stdToString n) := by
    rw [numberLine, htext, List.append_assoc]
    exact headerParts_append hname _
  simp [lengthField, hparts, hmem, skipBlank_stdToString]

end Length

/-! ## Whole messages -/

/-- **A head and what follows it** are a message. -/
theorem message_headText {status : ℤ} {title : List UInt8}
    (hst : IsStatusLine (statusLine status title)) (hplain : Plain title)
    (hh : ∀ l ∈ headers, ∃ name, name ≠ [] ∧ Header name l) (body : List UInt8) :
    Message (headText status title headers ++ body) (statusLine status title) headers body where
  head := by
    have hline : statusLine status title ≠ [] ∧ Plain (statusLine status title) := by
      refine ⟨fun hnil => ?_, ?_⟩
      · rw [hnil] at hst
        exact absurd hst (by decide)
      · rw [statusLine, plain_append, plain_append, plain_append]
        exact ⟨by decide, plain_stdToString status, by decide, hplain⟩
    rw [headText, List.append_assoc]
    refine headOf_ended (List.forall_mem_cons.mpr ⟨hline, fun l hl => ?_⟩) body
    obtain ⟨name, -, hhead⟩ := hh l hl
    exact ⟨hhead.ne_nil, hhead.plain⟩
  status := hst
  headers := fun l hl => by
    obtain ⟨name, hne, hhead⟩ := hh l hl
    obtain ⟨v, hv⟩ := hhead.line
    exact ⟨name, v, hv, hne⟩

/-- The line that says the length of `body`. -/
def lengthLine (body : List UInt8) : List UInt8 :=
  numberLine (ascii "Connect-Length: ") body.length

theorem header_lengthLine (body : List UInt8) :
    Header (ascii "Connect-Length") (lengthLine body) :=
  header_numberLine (by decide) (by decide) (by decide) _

theorem lengthField_lengthLine (body : List UInt8) :
    lengthField (lengthLine body) = some (stdToString body.length) :=
  lengthField_numberLine (show _ = ascii "Connect-Length" ++ _ by decide) (by decide) (by decide) _

/-- **A head with the length of what follows it** makes a message with its body. -/
theorem wellFormed_headText {status : ℤ} {title : List UInt8}
    (hst : IsStatusLine (statusLine status title)) (hplain : Plain title)
    (hh : ∀ l ∈ headers, OtherHeader l ∨ l = lengthLine body)
    (hbody : body = [] ∨ lengthLine body ∈ headers) :
    WellFormed (headText status title headers ++ body) := by
  refine ⟨_, headers, body, message_headText hst hplain (fun l hl => ?_) body, ?_, ?_⟩
  · rcases hh l hl with ⟨name, hne, -, hhead⟩ | rfl
    · exact ⟨name, hne, hhead⟩
    · exact ⟨_, by decide, header_lengthLine body⟩
  · intro hnone
    rcases hbody with hnil | hmem
    · exact hnil
    · have := List.filterMap_eq_nil_iff.mp hnone _ hmem
      rw [lengthField_lengthLine] at this
      cases this
  · intro v hv
    obtain ⟨l, hl, hlv⟩ := List.mem_filterMap.mp hv
    rcases hh l hl with hother | rfl
    · rw [hother.lengthField_eq_none] at hlv
      cases hlv
    · rw [lengthField_lengthLine] at hlv
      exact (Option.some.inj hlv).symm

end ServerNginx
