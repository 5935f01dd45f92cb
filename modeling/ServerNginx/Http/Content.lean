import ServerNginx.Http.Calls

set_option autoImplicit false

/-!
# A request with content

`Framed l₀ hs n content body`: the body is the request line `l₀`, the header lines `hs` with a
content length `n ≥ 1` among them, the empty line, and then `content`.

* `reading_framed`: behind the empty line the content is read as lines again;
* **`framesRight_iff`**: so no content of `n` bytes is complete, and of the two halves of the
  framing only the one about shorter contents holds.
-/

namespace ServerNginx

open CString

section framing

variable {l l₀ content rest : List UInt8} {ls hs : List (List UInt8)} {m m' : Method}
  {url url' : List UInt8} {found : Reading} {len pos k : ℕ} {n : ℤ}

/-! ## The lines of a body -/

theorem linesUpTo_ended (hls : ∀ l ∈ ls, Plain l) :
    linesUpTo (ls.length + k) (ended ls ++ rest) = ls ++ linesUpTo k rest := by
  induction ls with
  | nil => rw [List.length_nil, Nat.zero_add]; rfl
  | cons l ls ih =>
    obtain ⟨hl, hls⟩ := List.forall_mem_cons.mp hls
    have hnext : nextLine (ended (l :: ls) ++ rest) = some (l, ended ls ++ rest) := by
      rw [ended_cons, List.append_assoc, List.append_assoc]
      exact nextLine_append hl
    rw [List.length_cons, Nat.add_right_comm, linesUpTo, hnext]
    dsimp only
    rw [ih hls]
    rfl

variable (rest) in
theorem lines_ended (hls : ∀ l ∈ ls, Plain l) :
    ∃ k, lines (ended ls ++ rest) = ls ++ linesUpTo k rest := by
  obtain ⟨k, hk⟩ : ∃ k, (ended ls ++ rest).length = ls.length + k :=
    Nat.exists_eq_add_of_le ((length_le_ended ls).trans (by simp))
  exact ⟨k, by rw [lines, hk, linesUpTo_ended hls]⟩

/-! ## The headers and the content -/

/-- A line that is read as a header and accepted. -/
def HeaderLine (l : List UInt8) : Prop :=
  Plain l ∧ lineText l ≠ [] ∧ LineOk (lineText l) ∧ ¬ LineRejected (lineText l)

instance (l : List UInt8) : Decidable (HeaderLine l) :=
  inferInstanceAs (Decidable (_ ∧ _ ∧ _ ∧ _))

/-- `m_content_length` behind the lines `hs`: the last `Connect-Length` declares it. -/
def declared (hs : List (List UInt8)) : ℤ := hs.foldl (fun n l => lengthAfter (lineText l) n) 0

theorem readHeaders_append (hhs : ∀ l ∈ hs, HeaderLine l) :
    readHeaders len found n pos (hs ++ ls) =
      readHeaders len found (hs.foldl (fun n l => lengthAfter (lineText l) n) n)
        (pos + (ended hs).length) ls := by
  induction hs generalizing n pos with
  | nil => rfl
  | cons l hs ih =>
    obtain ⟨⟨-, hne, hok, hrej⟩, hhs⟩ := List.forall_mem_cons.mp hhs
    rw [List.cons_append, readHeaders]
    rw [if_neg hne, if_neg (not_not_intro hok), if_neg hrej, ih hhs, List.foldl_cons]
    have hlen : pos + l.length + 2 + (ended hs).length =
        pos + (ended (l :: hs)).length := by
      rw [length_ended_cons]
      omega
    rw [hlen]

/-! ## The framing -/

/-- **A request with content**: the lines of the head, accepted one by one, a content length `n`,
and no more than `n` bytes of content behind them. -/
structure Framed (l₀ : List UInt8) (hs : List (List UInt8)) (n : ℕ) (content body : List UInt8) :
    Prop where
  eq : body = ended (l₀ :: hs ++ [[]]) ++ content
  room : body.length < 2 ^ 16
  line : Plain l₀ ∧ ∃ m url, requestLine .get (lineText l₀) = some (m, url)
  headers : ∀ l ∈ hs, HeaderLine l
  declares : declared hs = n
  pos : 1 ≤ n
  le : content.length ≤ n

/-- **Behind the empty line** the content is read line by line. -/
theorem reading_framed {n : ℕ} {body : List UInt8} (hf : Framed l₀ hs n content body) :
    ∃ m url k, reading body = readContent body.length (.request m url) n
      (ended (l₀ :: hs ++ [[]])).length (linesUpTo k content) := by
  obtain ⟨hl₀, m, url, hreq⟩ := hf.line
  have hall : ∀ l ∈ l₀ :: hs ++ [[]], Plain l := by
    intro l hl
    simp only [List.cons_append, List.mem_cons, List.mem_append, List.not_mem_nil, or_false] at hl
    rcases hl with rfl | hl | rfl
    · exact hl₀
    · exact (hf.headers l hl).1
    · exact fun _ hc => absurd hc List.not_mem_nil
  obtain ⟨k, hk⟩ := lines_ended content hall
  refine ⟨m, url, k, ?_⟩
  have hpos : (0 : ℤ) < n := by have := hf.pos; omega
  have hend : l₀.length + 2 + (ended hs).length + 2 =
      (ended (l₀ :: hs ++ [[]])).length := by
    rw [ended_append, List.length_append, length_ended_cons, length_ended_cons, List.length_nil,
      ended_nil, List.length_nil]
  rw [reading, hf.eq, hk, ← hf.eq]
  simp only [List.cons_append, List.append_assoc]
  rw [hreq]
  dsimp only
  rw [readHeaders_append hf.headers, List.nil_append, readHeaders]
  rw [if_pos (by rfl), show hs.foldl _ 0 = (n : ℤ) from hf.declares, if_pos hpos, List.length_nil,
    Nat.add_zero, hend]
  rfl

end framing

namespace HttpServer

variable {l₀ content body : List UInt8} {hs : List (List UInt8)} {n : ℕ}

/-- **The declared length frames the content**: with `n` bytes of it `process_read` comes to
`do_request`, and with fewer it does not. -/
def FramesRight (env : Env) (u : Uninit) (n : ℕ) (content body : List UInt8) : Prop :=
  (content.length = n → ∃ g, Enters env ((new u).receive body) g) ∧
    (content.length < n → ¬ ∃ g, Enters env ((new u).receive body) g)

theorem not_enters_of_framed (env : Env) (u : Uninit) (hf : Framed l₀ hs n content body) :
    ¬ ∃ g, Enters env ((new u).receive body) g := by
  rw [enters_iff_reading env u hf.room]
  rintro ⟨m', url', hread⟩
  obtain ⟨m, url, k, heq⟩ := reading_framed hf
  refine readContent_ne_request _ ?_ (heq.symm.trans hread)
  have hlen := congrArg List.length hf.eq
  rw [List.length_append] at hlen
  have hle := hf.le
  omega

/-- **The framing** holds exactly for the contents that are shorter than declared. -/
theorem framesRight_iff (env : Env) (u : Uninit) (hf : Framed l₀ hs n content body) :
    FramesRight env u n content body ↔ content.length < n := by
  have hnot := not_enters_of_framed env u hf
  constructor
  · intro hright
    exact hf.le.lt_of_ne fun heq => hnot (hright.1 heq)
  · exact fun hlt => ⟨fun heq => absurd heq hlt.ne, fun _ => hnot⟩

/-- Two of three bytes. -/
theorem framesRight_short : FramesRight .noFiles .zero 3 (ascii "ab")
    (ascii "POST http://h/x HTTP/1.1\r\nConnect-Length:3\r\n\r\nab") := by
  have hf : Framed (ascii "POST http://h/x HTTP/1.1") [ascii "Connect-Length:3"] 3 (ascii "ab")
      (ascii "POST http://h/x HTTP/1.1\r\nConnect-Length:3\r\n\r\nab") :=
    { eq := by decide +kernel
      room := by decide +kernel
      line := ⟨by decide +kernel, .post, ascii "/x", by decide +kernel⟩
      headers := by decide +kernel
      declares := by decide +kernel
      pos := by decide
      le := by decide }
  exact (framesRight_iff .noFiles .zero hf).mpr (by decide)

/-- One of one byte. -/
theorem not_framesRight :
    Framed (ascii "POST http://h/x HTTP/1.1") [ascii "Connect-Length:1"] 1 (ascii "a")
      (ascii "POST http://h/x HTTP/1.1\r\nConnect-Length:1\r\n\r\na") ∧
    ¬ FramesRight .noFiles .zero 1 (ascii "a")
      (ascii "POST http://h/x HTTP/1.1\r\nConnect-Length:1\r\n\r\na") := by
  have hf : Framed (ascii "POST http://h/x HTTP/1.1") [ascii "Connect-Length:1"] 1 (ascii "a")
      (ascii "POST http://h/x HTTP/1.1\r\nConnect-Length:1\r\n\r\na") :=
    { eq := by decide +kernel
      room := by decide +kernel
      line := ⟨by decide +kernel, .post, ascii "/x", by decide +kernel⟩
      headers := by decide +kernel
      declares := by decide +kernel
      pos := by decide
      le := by decide }
  exact ⟨hf, fun hright => not_enters_of_framed .noFiles .zero hf (hright.1 rfl)⟩

end HttpServer

end ServerNginx
