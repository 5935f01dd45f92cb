import ServerNginx.Http.Asked

set_option autoImplicit false

/-!
# What a fresh object reads in a body

`reading body` is the outcome of `process_read` as a function of the lines of the body: a fault, a
bad request, or a request handed to `do_request`.

* **`processRead_reads`**: on a freshly constructed object `process_read` does what `reading` says;
* `processRead_ends`: the response then depends on what `Asked.body` collects.
-/

namespace ServerNginx

open CString CNumber

/-! ## The request line -/

/-- What follows the blanks `t` starts with. -/
def skipBlank (t : List UInt8) : List UInt8 := t.drop (strspn t blank)

/-- The method and the URL of a request line that is accepted; `old` is the method before. -/
def requestLine (old : Method) (t : List UInt8) : Option (Method × List UInt8) :=
  (strpbrk t blank).bind fun i =>
    let rest := skipBlank (t.drop (i + 1))
    (strpbrk rest blank).bind fun j =>
      if strcaseeq (skipBlank (rest.drop (j + 1))) (ascii "HTTP/1.1") ∧
          strncaseeq (rest.take j) (ascii "http://") 7 then
        (strchr ((rest.take j).drop 7) 47).map fun k =>
          (HttpServer.methodOf (t.take i) old, ((rest.take j).drop 7).drop k)
      else none

namespace HttpServer

variable {env : Env} {h g : HttpServer} {base n : ℕ} {t url : List UInt8}

/-- `m_url` points to the string `url`, which ends before index `n`. -/
def UrlAt (h : HttpServer) (url : List UInt8) (n : ℕ) : Prop :=
  ∃ off, h.mUrl = some (h.ptr off) ∧ cstr h.mReadBuffer off = some url ∧ off + url.length < n

/-- The members `parse_request` leaves alone. -/
def requestCore (h : HttpServer) : HttpServer :=
  { h with
    mReadBuffer := []
    mMethod := .get
    mUrl := none
    mVersion := none
    mCheckState := .requestLine }

theorem cstr_cut {b : List UInt8} {i j u : ℕ} (ht : cstr b base = some t) (hij : i < u)
    (huj : u ≤ j) (hj : j < t.length) :
    cstr ((b.set (base + i) 0).set (base + j) 0) (base + u) = some ((t.take j).drop u) := by
  obtain ⟨h0, hs, -⟩ := cstr_eq_some_iff_getElem?.mp ht
  have hlen := length_of_cstr ht
  have hul : ((t.take j).drop u).length = j - u := by
    rw [List.length_drop, List.length_take]
    omega
  refine cstr_eq_some_iff_getElem?.mpr ⟨fun hm => ?_, fun k hk => ?_, ?_⟩
  · exact h0 (List.mem_of_mem_take (List.mem_of_mem_drop hm))
  · rw [hul] at hk
    rw [List.getElem?_set_ne (by omega), List.getElem?_set_ne (by omega), Nat.add_assoc,
      hs _ (by omega), List.getElem?_drop, List.getElem?_take_of_lt (by omega)]
  · rw [hul, show base + u + (j - u) = base + j by omega, List.getElem?_set_self]
    rw [List.length_set]
    omega

/-- **`parse_request`** never faults; it accepts the lines `requestLine` accepts. -/
theorem parseRequest_spec (ht : cstr h.mReadBuffer base = some t) :
    ∃ code g, h.parseRequest base t = .ok (code, g) ∧
      g.mReadBuffer.length = h.mReadBuffer.length ∧
      (∀ i, i < base ∨ base + t.length ≤ i → g.mReadBuffer[i]? = h.mReadBuffer[i]?) ∧
      g.requestCore = h.requestCore ∧
      match requestLine h.mMethod t with
      | none => code = .badRequest
      | some (m, url) => code = .noRequest ∧ g.mMethod = m ∧ g.mCheckState = .header ∧
          UrlAt g url (base + t.length) := by
  have hroom := length_of_cstr ht
  unfold parseRequest requestLine
  cases hi : strpbrk t blank with
  | none => exact ⟨_, _, rfl, rfl, fun _ _ => rfl, rfl, rfl⟩
  | some i =>
    have hlt := strpbrk_lt hi
    have hpoke := poke_of_lt (h := h) (i := base + i) (by omega)
    simp only [hpoke, bind, Except.bind, Option.bind_some]
    have hrest : skipBlank (t.drop (i + 1)) =
        t.drop (i + 1 + strspn (t.drop (i + 1)) blank) := by
      rw [skipBlank, List.drop_drop]
    rw [hrest]
    have hiu : i < i + 1 + strspn (t.drop (i + 1)) blank := by omega
    generalize i + 1 + strspn (t.drop (i + 1)) blank = u at hiu
    cases hj : strpbrk (t.drop u) blank with
    | none =>
      refine ⟨_, _, rfl, by simp, fun x hx => ?_, rfl, rfl⟩
      dsimp only
      rw [List.getElem?_set_ne (by omega)]
    | some j =>
      have hltj := strpbrk_lt hj
      rw [List.length_drop] at hltj
      have hversion : skipBlank ((t.drop u).drop (j + 1)) =
          t.drop (u + j + 1 + strspn (t.drop (u + j + 1)) blank) := by
        have hdd : (t.drop u).drop (j + 1) = t.drop (u + j + 1) := by
          rw [List.drop_drop, Nat.add_assoc]
        rw [hdd, skipBlank, List.drop_drop]
      simp only [Option.bind_some, hversion]
      rw [poke_of_lt (by simp; omega)]
      dsimp only
      have hframe : ∀ x, x < base ∨ base + t.length ≤ x →
          ((h.mReadBuffer.set (base + i) 0).set (base + (u + j)) 0)[x]? = h.mReadBuffer[x]? := by
        intro x hx
        rw [List.getElem?_set_ne (by omega), List.getElem?_set_ne (by omega)]
      cases hv : strcaseeq (t.drop (u + j + 1 + strspn (t.drop (u + j + 1)) blank))
          (ascii "HTTP/1.1") with
      | false => exact ⟨_, _, rfl, by simp, hframe, rfl, by simp⟩
      | true =>
        cases hp : strncaseeq ((t.drop u).take j) (ascii "http://") 7 with
        | false => exact ⟨_, _, rfl, by simp, hframe, rfl, by simp⟩
        | true =>
          simp only [Bool.not_true, Bool.false_eq_true, if_false, and_self, if_true]
          cases hk : strchr (((t.drop u).take j).drop 7) 47 with
          | none => exact ⟨_, _, rfl, by simp, hframe, rfl, rfl⟩
          | some k =>
            have hltk := strchr_lt hk
            rw [List.length_drop, List.length_take, List.length_drop] at hltk
            refine ⟨_, _, rfl, by simp, hframe, rfl, rfl, rfl, rfl,
              base + (u + 7 + k), rfl, ?_, ?_⟩
            · have hcut := cstr_cut (i := i) (j := u + j) (u := u + 7 + k) ht (by omega)
                (by omega) (by omega)
              rw [hcut, List.drop_drop, Nat.add_assoc, ← List.drop_drop, List.drop_take,
                Nat.add_sub_cancel_left]
            · rw [List.length_drop, List.length_drop, List.length_take, List.length_drop]
              omega

end HttpServer

/-! ## The lines after it -/

/-- What a body is read as. -/
inductive Reading
  | fault
  | bad
  | request (m : Method) (url : List UInt8)
  deriving DecidableEq

/-- The content: `n` bytes announced in a body of `len` bytes, the next line at index `pos`. A
request is complete at the end of a line behind which `n` more bytes fit. -/
def readContent (len : ℕ) (found : Reading) (n : ℤ) : ℕ → List (List UInt8) → Reading
  | _, [] => .bad
  | pos, l :: ls =>
    let next := pos + l.length + 2
    if 2 ^ 31 ≤ n + next then .fault
    else if n + next ≤ len then found
    else readContent len found n next ls

/-- Where `n` bytes or fewer are left, no line is followed by `n` bytes. -/
theorem readContent_ne_request {len : ℕ} {n : ℤ} {m m' : Method} {url url' : List UInt8}
    (ls : List (List UInt8)) : ∀ {pos : ℕ}, (len : ℤ) ≤ n + pos →
    readContent len (.request m url) n pos ls ≠ .request m' url' := by
  induction ls with
  | nil => exact fun _ => nofun
  | cons l ls ih =>
    intro pos hle
    rw [readContent]
    split_ifs with hint hfit
    · exact nofun
    · omega
    · exact ih (by omega)

/-- The header lines, with `m_content_length` at `n`. -/
def readHeaders (len : ℕ) (found : Reading) : ℤ → ℕ → List (List UInt8) → Reading
  | _, _, [] => .bad
  | n, pos, l :: ls =>
    let next := pos + l.length + 2
    if lineText l = [] then if 0 < n then readContent len found n next ls else found
    else if ¬ LineOk (lineText l) then .fault
    else if LineRejected (lineText l) then .bad
    else readHeaders len found (lengthAfter (lineText l) n) next ls

/-- What a fresh object reads in a body. -/
def reading (body : List UInt8) : Reading :=
  match lines body with
  | [] => .bad
  | l :: ls =>
    match requestLine .get (lineText l) with
    | none => .bad
    | some (m, url) => readHeaders body.length (.request m url) 0 (l.length + 2) ls

namespace HttpServer

variable {env : Env} {h g k : HttpServer} {url rest l r : List UInt8} {lo hi n m : ℕ}

/-- The members `process_read` leaves alone before `do_request`. -/
def outer (h : HttpServer) : HttpServer :=
  { h.core with
    mStartIdx := 0
    mCheckIdx := 0
    mMethod := .get
    mUrl := none
    mCheckState := .requestLine }

theorem outer_of_core (hc : g.core = h.core) : g.outer = h.outer := by
  unfold outer
  rw [hc]

theorem outer_of_requestCore (hc : g.requestCore = h.requestCore) : g.outer = h.outer :=
  (congrArg outer hc :)

/-- `process_read` on `h` does what `rd` says. -/
def Does (env : Env) (h : HttpServer) (r : Except Fault (HttpCode × HttpServer)) :
    Reading → Prop
  | .fault => ∃ e, r = .error e
  | .bad => ∃ g, r = .ok (.badRequest, g) ∧ g.outer = h.outer
  | .request m url => ∃ g, r = doRequest env g ∧ g.mMethod = m ∧ g.deref g.mUrl = .ok url ∧
      g.outer = h.outer

/-- `Does`, where the object of a bad request, or the one handed to `do_request`, also has `a` in
the members the response depends on. -/
def DoesAsked (env : Env) (h : HttpServer) (r : Except Fault (HttpCode × HttpServer)) (a : Asked) :
    Reading → Prop
  | .fault => ∃ e, r = .error e
  | .bad => ∃ g, r = .ok (.badRequest, g) ∧ g.outer = h.outer ∧ g.asked = a
  | .request m url => ∃ g, r = doRequest env g ∧ g.mMethod = m ∧ g.deref g.mUrl = .ok url ∧
      g.outer = h.outer ∧ g.asked = a

section DoesAsked

variable {r : Except Fault (HttpCode × HttpServer)} {a : Asked} {rd : Reading}

theorem DoesAsked.does (hd : DoesAsked env h r a rd) : Does env h r rd := by
  cases rd with
  | fault => exact hd
  | bad =>
    obtain ⟨k, hk, hko, -⟩ := hd
    exact ⟨k, hk, hko⟩
  | request m url =>
    obtain ⟨k, hk, hm, hu, hko, -⟩ := hd
    exact ⟨k, hk, hm, hu, hko⟩

theorem DoesAsked.of_outer (hd : DoesAsked env g r a rd) (ho : g.outer = h.outer) :
    DoesAsked env h r a rd := by
  cases rd with
  | fault => exact hd
  | bad =>
    obtain ⟨k, hk, hko, hka⟩ := hd
    exact ⟨k, hk, hko.trans ho, hka⟩
  | request m url =>
    obtain ⟨k, hk, hm, hu, hko, hka⟩ := hd
    exact ⟨k, hk, hm, hu, hko.trans ho, hka⟩

end DoesAsked

/-! ## The invariant between lines -/

theorem UrlAt.deref (hu : UrlAt h url n) : h.deref h.mUrl = .ok url := by
  obtain ⟨off, hurl, hc, -⟩ := hu
  simp [hurl, HttpServer.deref, ptr, hc]

theorem UrlAt.mono (hu : UrlAt h url n) (hnm : n ≤ m) : UrlAt h url m := by
  obtain ⟨off, hurl, hc, hlt⟩ := hu
  exact ⟨off, hurl, hc, hlt.trans_le hnm⟩

theorem UrlAt.congr (hu : UrlAt h url n) (hurl : g.mUrl = h.mUrl) (hpkt : g.pkt = h.pkt)
    (hb : ∀ i, i < n → g.mReadBuffer[i]? = h.mReadBuffer[i]?) : UrlAt g url n := by
  obtain ⟨off, ho, hc, hlt⟩ := hu
  refine ⟨off, ?_, cstr_congr hc fun i _ hi => hb i (by omega), hlt⟩
  rw [hurl, ho, ptr, ptr, hpkt]

theorem UrlAt.cut (hu : UrlAt h url n) (hc : Cut lo hi h g) (hn : n ≤ lo) : UrlAt g url n :=
  hu.congr hc.url hc.pkt fun i hi =>
    hc.frame i (Or.inl (by omega))

theorem UrlAt.afterLine (hu : UrlAt h url h.mCheckIdx) (n : ℕ) :
    UrlAt (h.afterLine n) url h.mCheckIdx :=
  hu.congr rfl rfl fun _ hi => afterLine_getElem? h hi

theorem UrlAt.set {i : ℕ} (hu : UrlAt h url n) (hi : n ≤ i) :
    UrlAt { h with mReadBuffer := h.mReadBuffer.set i 0 } url n :=
  hu.congr rfl rfl fun _ hj => List.getElem?_set_ne (by omega)

theorem AtLine.of_frame (h₀ : AtLine h rest) (hs : g.mStartIdx = h.mStartIdx)
    (hch : g.mCheckIdx = h.mCheckIdx) (hr : g.mReadIdx = h.mReadIdx)
    (hl : g.mReadBuffer.length = h.mReadBuffer.length)
    (hb : ∀ i, h.mCheckIdx ≤ i + 1 → g.mReadBuffer[i]? = h.mReadBuffer[i]?) : AtLine g rest where
  start := by rw [hs, hch, h₀.start]
  readIdx := by rw [hr, hl, h₀.readIdx]
  check := by rw [hch, hl]; exact h₀.check
  rest := by
    rw [← h₀.rest, hch]
    refine List.ext_getElem? fun i => ?_
    rw [List.getElem?_drop, List.getElem?_drop, hb _ (by omega)]
  prev := fun h1 => by
    rw [hch] at h1 ⊢
    rw [hb _ (by omega)]
    exact h₀.prev h1

theorem AtLine.cut (h₀ : AtLine h rest) (hc : Cut lo hi h g) (hhi : hi < h.mCheckIdx) :
    AtLine g rest :=
  h₀.of_frame hc.startIdx hc.checkIdx hc.readIdx hc.length fun i hi =>
    hc.frame i (Or.inr (by omega))

theorem Scanned.outer {st : LineStatus} (hs : Scanned h st g) : g.outer = h.outer :=
  (congrArg HttpServer.outer hs.others :)

theorem Scanned.asked {st : LineStatus} (hs : Scanned h st g) : g.asked = h.asked :=
  (congrArg HttpServer.asked hs.others :)

/-! ## One iteration -/

variable (env) in
theorem readText_of_none (h₀ : AtLine h rest) (hn : nextLine rest = none) :
    ∃ g, readText env h = .ok (.badRequest, g) ∧ g.outer = h.outer ∧ g.asked = h.asked := by
  have hp := parseLine_of_atLine h₀
  rw [hn] at hp
  obtain ⟨st, g, hg, hst⟩ := hp
  obtain ⟨st', g', hg', hs⟩ := (parseLine_spec h₀.readIdx).2 h₀.not_strayFeed
  rw [hg] at hg'
  cases hg'
  refine ⟨g, ?_, hs.outer, hs.asked⟩
  simp [readText, hg, hst, bind, Except.bind]

variable (env) in
theorem readText_of_some (h₀ : AtLine h rest) (hn : nextLine rest = some (l, r)) :
    readText env h = parseText env (h.afterLine l.length) h.mCheckIdx := by
  have hp := parseLine_of_atLine h₀
  rw [hn] at hp
  simp only [readText, hp, bind, Except.bind, if_true, h₀.start]
  rfl

theorem parseText_of_content {base : ℕ} (hst : h.mCheckState = .content) :
    parseText env h base = h.parseContent base := by
  simp only [parseText, hst]

theorem parseText_of_header {base : ℕ} {t : List UInt8} (hst : h.mCheckState = .header)
    (ht : cstr h.mReadBuffer base = some t) :
    parseText env h base = parseHeader env h base t := by
  simp only [parseText, hst, ht]

theorem parseText_of_requestLine {base : ℕ} {t : List UInt8} (hst : h.mCheckState = .requestLine)
    (ht : cstr h.mReadBuffer base = some t) :
    parseText env h base = h.parseRequest base t := by
  simp only [parseText, hst, ht]

section Verdict

variable {e : Fault}

theorem processReadLoop_of_error (ht : readText env h = .error e) :
    processReadLoop env (n + 1) h = .error e := by
  simp [processReadLoop, processReadIter, ht, bind, Except.bind]

theorem processReadLoop_of_bad (ht : readText env h = .ok (.badRequest, g)) :
    processReadLoop env (n + 1) h = .ok (.badRequest, g) := by
  simp [processReadLoop, processReadIter, ht, bind, Except.bind, verdict]

theorem processReadLoop_of_get (ht : readText env h = .ok (.getRequest, g)) :
    processReadLoop env (n + 1) h = doRequest env g := by
  simp only [processReadLoop, processReadIter, ht, bind, Except.bind, verdict]
  cases doRequest env g <;> rfl

theorem processReadLoop_of_no (ht : readText env h = .ok (.noRequest, g)) :
    processReadLoop env (n + 1) h = processReadLoop env n g := by
  simp [processReadLoop, processReadIter, ht, bind, Except.bind, verdict]

end Verdict

/-! ## The content -/

/-- `text[m_content_length]` is not before the body and `m_content_length + m_check_idx` does not
overflow. -/
def ContentOk (h : HttpServer) (base : ℕ) : Prop :=
  0 ≤ base + h.mContentLength ∧ h.mContentLength + h.mCheckIdx < 2 ^ 31

instance (h : HttpServer) (base : ℕ) : Decidable (ContentOk h base) := by
  unfold ContentOk
  infer_instance

variable {base : ℕ}

variable (base) in
/-- **`parse_content` behind a line of a body** leaves the body exactly where the content length is
not `ContentOk`. -/
theorem parseContent_spec (hread : h.mReadIdx = h.mReadBuffer.length)
    (hroom : h.mReadBuffer.length < 2 ^ 16) (hbase : base + 2 ≤ h.mCheckIdx)
    (hcheck : h.mCheckIdx ≤ h.mReadIdx)
    (hint : -2 ^ 31 ≤ h.mContentLength ∧ h.mContentLength < 2 ^ 31) :
    (¬ ContentOk h base → h.parseContent base = .error .readBuffer) ∧
    (ContentOk h base → h.parseContent base =
      if h.mContentLength + h.mCheckIdx ≤ h.mReadIdx then
        .ok (.getRequest, { h with
          mReadBuffer := h.mReadBuffer.set (base + h.mContentLength).toNat 0 })
      else .ok (.noRequest, h)) := by
  unfold parseContent ContentOk
  rcases lt_or_ge (h.mContentLength + h.mCheckIdx) (2 ^ 31) with hlt | hge
  · rw [int32_of_lt (by omega) hlt]
    constructor
    · intro hnot
      rw [if_pos (by omega), if_pos (by omega)]
    · rintro ⟨hnonneg, -⟩
      by_cases hfit : h.mContentLength + h.mCheckIdx ≤ h.mReadIdx
      · rw [if_pos hfit, if_pos hfit, if_neg (by omega), poke_of_lt (by omega)]
        rfl
      · rw [if_neg hfit, if_neg hfit]
  · rw [int32_of_ge hge (by omega), if_pos (by omega), if_neg (by omega), poke,
      if_neg (by omega)]
    exact ⟨fun _ => rfl, fun hok => absurd hok.2 (by omega)⟩

/-! ## The runs of the loop -/

/-- At the start of a line behind the request line, which named `m` and `url`. -/
structure AtHeader (h : HttpServer) (m : Method) (url rest : List UInt8) : Prop where
  line : AtLine h rest
  method : h.mMethod = m
  url : UrlAt h url h.mCheckIdx
  length : -2 ^ 31 ≤ h.mContentLength ∧ h.mContentLength < 2 ^ 31
  room : h.mReadBuffer.length < 2 ^ 16

variable {mth : Method}

theorem nextLine_length (hn : nextLine rest = some (l, r)) :
    rest.length = l.length + 2 + r.length := by
  rw [(nextLine_eq_some hn).1]
  simp
  omega

theorem AtHeader.afterLine (h₀ : AtHeader h mth url rest) (hn : nextLine rest = some (l, r)) :
    AtHeader (h.afterLine l.length) mth url r where
  line := atLine_afterLine h₀.line hn
  method := h₀.method
  url := (h₀.url.afterLine l.length).mono (Nat.le_add_right h.mCheckIdx (l.length + 2))
  length := h₀.length
  room := by simpa [HttpServer.afterLine] using h₀.room

theorem AtHeader.withState (h₀ : AtHeader h mth url rest) (st : CheckState) :
    AtHeader { h with mCheckState := st } mth url rest where
  line := h₀.line.of_frame rfl rfl rfl rfl fun _ _ => rfl
  method := h₀.method
  url := h₀.url.congr rfl rfl fun _ _ => rfl
  length := h₀.length
  room := h₀.room

theorem lineText_length_le : (lineText l).length ≤ l.length := (List.takeWhile_prefix _).length_le

theorem AtHeader.cut (h₀ : AtHeader h mth url rest) (hn : nextLine rest = some (l, r))
    (hc : Cut h.mCheckIdx (h.mCheckIdx + (lineText l).length) (h.afterLine l.length) g)
    (hint : -2 ^ 31 ≤ g.mContentLength ∧ g.mContentLength < 2 ^ 31) : AtHeader g mth url r where
  line := (atLine_afterLine h₀.line hn).cut hc (by
    have := lineText_length_le (l := l)
    simp only [HttpServer.afterLine]
    omega)
  method := hc.method.trans h₀.method
  url := by
    have hck : g.mCheckIdx = h.mCheckIdx + l.length + 2 := hc.checkIdx
    rw [hck]
    exact ((h₀.url.afterLine l.length).cut hc le_rfl).mono (by omega)
  length := hint
  room := by
    rw [hc.length]
    exact (h₀.afterLine hn).room

/-! ## One line behind the request line -/

/-- `g` is at the line behind `l`, with `n` bytes of content announced. -/
structure Behind (h g : HttpServer) (m : Method) (url l r : List UInt8) (n : ℤ) : Prop where
  header : AtHeader g m url r
  checkIdx : g.mCheckIdx = h.mCheckIdx + l.length + 2
  buffer : g.mReadBuffer.length = h.mReadBuffer.length
  length : g.mContentLength = n
  outer : g.outer = h.outer

/-- `g` is handed to `do_request`. -/
structure GivenOn (h g : HttpServer) (m : Method) (url : List UInt8) : Prop where
  method : g.mMethod = m
  url : g.deref g.mUrl = .ok url
  outer : g.outer = h.outer
  asked : g.asked = h.asked

theorem GivenOn.request (hg : GivenOn h g mth url) :
    DoesAsked env h (doRequest env g) h.asked (.request mth url) :=
  ⟨g, rfl, hg.method, hg.url, hg.outer, hg.asked⟩

theorem AtHeader.behind (h₀ : AtHeader h mth url rest) (hn : nextLine rest = some (l, r)) :
    Behind h (h.afterLine l.length) mth url l r h.mContentLength where
  header := h₀.afterLine hn
  checkIdx := rfl
  buffer := by simp [HttpServer.afterLine]
  length := rfl
  outer := rfl

variable (env) in
/-- **A line of the content.** -/
theorem readText_content (h₀ : AtHeader h mth url rest) (hst : h.mCheckState = .content)
    (hpos : 0 < h.mContentLength) (hn : nextLine rest = some (l, r)) :
    if 2 ^ 31 ≤ h.mContentLength + ↑(h.mCheckIdx + l.length + 2) then
      readText env h = .error .readBuffer
    else if h.mContentLength + ↑(h.mCheckIdx + l.length + 2) ≤ h.mReadBuffer.length then
      ∃ g, readText env h = .ok (.getRequest, g) ∧ GivenOn h g mth url
    else ∃ g, readText env h = .ok (.noRequest, g) ∧ Behind h g mth url l r h.mContentLength ∧
      g.mCheckState = .content ∧ g.asked = h.asked := by
  have hlen := nextLine_length hn
  have hroom := h₀.room
  have hcheck : h.mCheckIdx + rest.length = h.mReadBuffer.length := by
    have := h₀.line.length
    have := h₀.line.readIdx
    have := h₀.line.check
    omega
  have hint := h₀.length
  have ht := readText_of_some env h₀.line hn
  have h₁ := h₀.behind hn
  have hst₁ : (h.afterLine l.length).mCheckState = .content := hst
  rw [parseText_of_content hst₁] at ht
  have hread := h₁.header.line.readIdx
  have hck := h₁.checkIdx
  have hsame := h₁.buffer
  have hn₁ : (h.afterLine l.length).mContentLength = h.mContentLength := rfl
  have hspec := parseContent_spec h.mCheckIdx hread h₁.header.room (by omega) (by omega)
    h₁.header.length
  have hiff : ContentOk (h.afterLine l.length) h.mCheckIdx ↔
      ¬ 2 ^ 31 ≤ h.mContentLength + ↑(h.mCheckIdx + l.length + 2) := by
    rw [ContentOk, hck, hn₁]
    omega
  split_ifs with hwrap hfit
  · rw [ht]
    exact hspec.1 fun hok => hiff.mp hok hwrap
  · have hg := hspec.2 (hiff.mpr hwrap)
    rw [if_pos (by rw [hck, hn₁, hread, hsame]; exact hfit), ← ht] at hg
    exact ⟨_, hg, h₁.header.method, ((h₀.url.afterLine l.length).set (by omega)).deref, rfl, rfl⟩
  · have hg := hspec.2 (hiff.mpr hwrap)
    rw [if_neg (by rw [hck, hn₁, hread, hsame]; exact hfit), ← ht] at hg
    exact ⟨_, hg, h₁, hst, rfl⟩

variable (env) in
/-- **A header line.** -/
theorem readText_header (h₀ : AtHeader h mth url rest) (hst : h.mCheckState = .header)
    (hn : nextLine rest = some (l, r)) :
    if lineText l = [] then
      if 0 < h.mContentLength then
        ∃ g, readText env h = .ok (.noRequest, g) ∧ Behind h g mth url l r h.mContentLength ∧
          g.mCheckState = .content ∧ g.asked = h.asked
      else ∃ g, readText env h = .ok (.getRequest, g) ∧ GivenOn h g mth url
    else if ¬ LineOk (lineText l) then ∃ e, readText env h = .error e
    else if LineRejected (lineText l) then
      ∃ g, readText env h = .ok (.badRequest, g) ∧ g.outer = h.outer ∧
        g.asked = h.asked.line env (lineText l)
    else ∃ g, readText env h = .ok (.noRequest, g) ∧
      Behind h g mth url l r (lengthAfter (lineText l) h.mContentLength) ∧
      g.mCheckState = .header ∧ g.asked = h.asked.line env (lineText l) := by
  have h₁ := h₀.behind hn
  have hst₁ : (h.afterLine l.length).mCheckState = .header := hst
  have hcstr := cstr_afterLine h₀.line hn
  have ht := readText_of_some env h₀.line hn
  rw [parseText_of_header hst₁ hcstr] at ht
  have hasked := parseHeader_asked env (h.afterLine l.length) h.mCheckIdx (lineText l)
  rw [← ht] at hasked
  by_cases hnil : lineText l = []
  · rw [if_pos hnil]
    rw [hnil, parseHeader, if_pos rfl] at ht
    have hcl : (h.afterLine l.length).mContentLength = h.mContentLength := rfl
    rw [hcl] at ht
    by_cases hpos : 0 < h.mContentLength
    · rw [if_pos hpos] at ht ⊢
      exact ⟨_, ht, ⟨h₁.header.withState .content, h₁.checkIdx, h₁.buffer, rfl, rfl⟩, rfl, rfl⟩
    · rw [if_neg hpos] at ht ⊢
      exact ⟨_, ht, h₁.header.method, h₁.header.url.deref, rfl, rfl⟩
  · rw [if_neg hnil]
    have hh := parseHeader_handled env hnil (length_of_cstr hcstr).le
    rw [← ht] at hh
    by_cases hok : LineOk (lineText l)
    · rw [if_neg (not_not.mpr hok)]
      obtain ⟨code, k, hk, hcut, hcl, hres⟩ := hh.result hok
      have hka : k.asked = h.asked.line env (lineText l) := hasked.of_ok hk
      have ho : k.outer = h.outer := (outer_of_core hcut.core).trans rfl
      rcases hres with ⟨rfl, hrej⟩ | ⟨rfl, hrej⟩
      · rw [if_pos hrej]
        exact ⟨k, hk, ho, hka⟩
      · rw [if_neg hrej]
        have h₂ := h₀.cut hn hcut (by rw [hcl]; exact lengthAfter_bounds h₀.length)
        exact ⟨k, hk, ⟨h₂, hcut.checkIdx.trans h₁.checkIdx, hcut.length.trans h₁.buffer, hcl, ho⟩,
          hcut.checkState.trans hst, hka⟩
    · rw [if_pos hok]
      obtain ⟨e, he, -⟩ := hh.fault hok
      exact ⟨e, he⟩

/-! ## The lines behind the request line -/

variable (env) in
/-- **The content.** -/
theorem content_ends (n : ℕ) : ∀ {h : HttpServer} {rest : List UInt8}, rest.length ≤ n →
    AtHeader h mth url rest → h.mCheckState = .content → 0 < h.mContentLength →
    DoesAsked env h (processReadLoop env (n + 1) h) h.asked
      (readContent h.mReadBuffer.length (.request mth url) h.mContentLength h.mCheckIdx
        (linesUpTo n rest)) := by
  induction n with
  | zero =>
    intro h rest hle h₀ _ _
    obtain rfl := List.length_eq_zero_iff.mp (Nat.le_zero.mp hle)
    obtain ⟨g, hg, ho⟩ := readText_of_none env h₀.line rfl
    exact ⟨g, processReadLoop_of_bad hg, ho⟩
  | succ n ih =>
    intro h rest hle h₀ hst hpos
    rw [linesUpTo]
    cases hn : nextLine rest with
    | none =>
      obtain ⟨g, hg, ho⟩ := readText_of_none env h₀.line hn
      exact ⟨g, processReadLoop_of_bad hg, ho⟩
    | some p =>
      obtain ⟨l, r⟩ := p
      have hlen := nextLine_length hn
      have hstep := readText_content env h₀ hst hpos hn
      dsimp only [readContent]
      split_ifs at hstep ⊢
      · exact ⟨.readBuffer, processReadLoop_of_error hstep⟩
      · obtain ⟨g, hg, hh⟩ := hstep
        rw [processReadLoop_of_get hg]
        exact hh.request
      · obtain ⟨g, hg, hb, hgs, hga⟩ := hstep
        have hread := ih (by omega) hb.header hgs (hb.length ▸ hpos)
        rw [hb.buffer, hb.length, hb.checkIdx, hga] at hread
        rw [processReadLoop_of_no hg]
        exact hread.of_outer hb.outer

variable (env) in
/-- **The header lines.** -/
theorem headers_ends (n : ℕ) : ∀ {h : HttpServer} {rest : List UInt8}, rest.length ≤ n →
    AtHeader h mth url rest → h.mCheckState = .header →
    DoesAsked env h (processReadLoop env (n + 1) h) (h.asked.headers env (linesUpTo n rest))
      (readHeaders h.mReadBuffer.length (.request mth url) h.mContentLength h.mCheckIdx
        (linesUpTo n rest)) := by
  induction n with
  | zero =>
    intro h rest hle h₀ _
    obtain rfl := List.length_eq_zero_iff.mp (Nat.le_zero.mp hle)
    obtain ⟨g, hg, ho⟩ := readText_of_none env h₀.line rfl
    exact ⟨g, processReadLoop_of_bad hg, ho⟩
  | succ n ih =>
    intro h rest hle h₀ hst
    rw [linesUpTo]
    cases hn : nextLine rest with
    | none =>
      obtain ⟨g, hg, ho⟩ := readText_of_none env h₀.line hn
      exact ⟨g, processReadLoop_of_bad hg, ho⟩
    | some p =>
      obtain ⟨l, r⟩ := p
      have hlen := nextLine_length hn
      have hstep := readText_header env h₀ hst hn
      dsimp only [readHeaders, Asked.headers]
      by_cases hnil : lineText l = []
      · rw [if_pos hnil] at hstep
        rw [if_pos hnil, if_pos (Or.inl hnil)]
        by_cases hpos : 0 < h.mContentLength
        · rw [if_pos hpos] at hstep ⊢
          obtain ⟨g, hg, hb, hgs, hga⟩ := hstep
          have hread := content_ends env n (by omega) hb.header hgs (hb.length ▸ hpos)
          rw [hb.buffer, hb.length, hb.checkIdx, hga] at hread
          rw [processReadLoop_of_no hg]
          exact hread.of_outer hb.outer
        · rw [if_neg hpos] at hstep ⊢
          obtain ⟨g, hg, hh⟩ := hstep
          rw [processReadLoop_of_get hg]
          exact hh.request
      · rw [if_neg hnil] at hstep
        rw [if_neg hnil]
        by_cases hok : LineOk (lineText l)
        · rw [if_neg (not_not.mpr hok)] at hstep
          rw [if_neg (not_not.mpr hok), if_neg (not_or.mpr ⟨hnil, not_not.mpr hok⟩)]
          by_cases hrej : LineRejected (lineText l)
          · rw [if_pos hrej] at hstep ⊢
            obtain ⟨g, hg, ho, hga⟩ := hstep
            rw [if_pos hrej]
            exact ⟨g, processReadLoop_of_bad hg, ho, hga⟩
          · rw [if_neg hrej] at hstep ⊢
            obtain ⟨g, hg, hb, hgs, hga⟩ := hstep
            have hread := ih (by omega) hb.header hgs
            rw [hb.buffer, hb.length, hb.checkIdx, hga] at hread
            rw [if_neg hrej, processReadLoop_of_no hg]
            exact hread.of_outer hb.outer
        · rw [if_pos hok] at hstep ⊢
          obtain ⟨e, he⟩ := hstep
          exact ⟨e, processReadLoop_of_error he⟩

/-! ## Whole bodies -/

end HttpServer

/-- What a body asks for, up to the line the reading ends at. -/
def Asked.body (env : Env) (a : Asked) (body : List UInt8) : Asked :=
  match lines body with
  | [] => a
  | l :: ls =>
    match requestLine a.method (lineText l) with
    | none => a.request (lineText l)
    | some _ => (a.request (lineText l)).headers env ls

namespace HttpServer

variable {env : Env} {h : HttpServer} {rest l r : List UInt8}

variable (env) in
theorem readText_requestLine (h₀ : AtLine h rest) (hst : h.mCheckState = .requestLine)
    (hint : h.mContentLength = 0) (hroom : h.mReadBuffer.length < 2 ^ 16)
    (hn : nextLine rest = some (l, r)) :
    match requestLine h.mMethod (lineText l) with
    | none => ∃ g, readText env h = .ok (.badRequest, g) ∧ g.outer = h.outer ∧
        g.asked = h.asked.request (lineText l)
    | some (m, url) => ∃ g, readText env h = .ok (.noRequest, g) ∧ Behind h g m url l r 0 ∧
        g.mCheckState = .header ∧ g.asked = h.asked.request (lineText l) := by
  have hcstr := cstr_afterLine h₀ hn
  have ht := readText_of_some env h₀ hn
  have hst₁ : (h.afterLine l.length).mCheckState = .requestLine := hst
  rw [parseText_of_requestLine hst₁ hcstr] at ht
  obtain ⟨code, g, hg, hgl, hgf, hgc, hgr⟩ := parseRequest_spec hcstr
  rw [hg] at ht
  have ho : g.outer = h.outer := (outer_of_requestCore hgc).trans rfl
  have hga : g.asked = h.asked.request (lineText l) :=
    (parseRequest_asked (h.afterLine l.length) h.mCheckIdx (lineText l)).of_ok hg
  have hm : (h.afterLine l.length).mMethod = h.mMethod := rfl
  rw [hm] at hgr
  cases hr : requestLine h.mMethod (lineText l) with
  | none =>
    rw [hr] at hgr
    obtain rfl : code = .badRequest := hgr
    exact ⟨g, ht, ho, hga⟩
  | some p =>
    obtain ⟨m, url⟩ := p
    rw [hr] at hgr
    obtain ⟨rfl, hgm, hgs, hgu⟩ := hgr
    have hlt := lineText_length_le (l := l)
    have hck : g.mCheckIdx = h.mCheckIdx + l.length + 2 := (congrArg mCheckIdx hgc :)
    have hcl : g.mContentLength = 0 := (congrArg mContentLength hgc :).trans hint
    have hsame : g.mReadBuffer.length = h.mReadBuffer.length := by
      rw [hgl]
      simp [HttpServer.afterLine]
    have h₁ : AtHeader g m url r := by
      refine ⟨(atLine_afterLine h₀ hn).of_frame (congrArg mStartIdx hgc :)
        (congrArg mCheckIdx hgc :) (congrArg mReadIdx hgc :) hgl fun i hi => hgf i (Or.inr ?_),
        hgm, hgu.mono (by omega), by rw [hcl]; omega, by rw [hsame]; exact hroom⟩
      simp only [HttpServer.afterLine] at hi
      omega
    exact ⟨g, ht, ⟨h₁, hck, hsame, hcl, ho⟩, hgs, hga⟩

variable (env) in
/-- **The request line.** -/
theorem requestLine_ends (n : ℕ) (hle : rest.length ≤ n + 1) (h₀ : AtLine h rest)
    (hst : h.mCheckState = .requestLine) (hint : h.mContentLength = 0)
    (hroom : h.mReadBuffer.length < 2 ^ 16) (hn : nextLine rest = some (l, r)) :
    DoesAsked env h (processReadLoop env (n + 2) h)
      (match requestLine h.mMethod (lineText l) with
        | none => h.asked.request (lineText l)
        | some _ => (h.asked.request (lineText l)).headers env (linesUpTo n r))
      (match requestLine h.mMethod (lineText l) with
        | none => .bad
        | some (m, url) => readHeaders h.mReadBuffer.length (.request m url) 0
          (h.mCheckIdx + l.length + 2) (linesUpTo n r)) := by
  have hlen := nextLine_length hn
  have hstep := readText_requestLine env h₀ hst hint hroom hn
  cases hr : requestLine h.mMethod (lineText l) with
  | none =>
    rw [hr] at hstep
    obtain ⟨g, hg, ho, hga⟩ := hstep
    exact ⟨g, processReadLoop_of_bad hg, ho, hga⟩
  | some p =>
    rw [hr] at hstep
    obtain ⟨g, hg, hb, hgs, hga⟩ := hstep
    have hread := headers_ends env n (by omega) hb.header hgs
    rw [hb.buffer, hb.length, hb.checkIdx, hga] at hread
    rw [processReadLoop_of_no hg]
    exact hread.of_outer hb.outer

variable (env) in
/-- **`process_read` on a fresh object** ends as `reading` says of the body, with what `Asked.body`
collects from it. -/
theorem processRead_ends (u : Uninit) {body : List UInt8} (hroom : body.length < 2 ^ 16) :
    DoesAsked env ((new u).receive body) (processRead env ((new u).receive body))
      ((new u).asked.body env body) (reading body) := by
  have h₀ := atLine_receive u body
  have hfuel : processRead env ((new u).receive body) =
      processReadLoop env (body.length + 1) ((new u).receive body) := rfl
  rw [hfuel, reading, Asked.body, lines]
  cases hn : nextLine body with
  | none =>
    obtain ⟨g, hg, ho⟩ := readText_of_none env h₀ hn
    have hnone : linesUpTo body.length body = [] := by
      cases body.length <;> simp [linesUpTo, hn]
    rw [hnone]
    exact ⟨g, processReadLoop_of_bad hg, ho⟩
  | some p =>
    obtain ⟨l, r⟩ := p
    obtain ⟨n, hb⟩ : ∃ n, body.length = n + 1 := ⟨body.length - 1, by
      have := nextLine_length hn
      omega⟩
    rw [hb, linesUpTo, hn]
    have hd := requestLine_ends env n hb.le h₀ rfl rfl hroom hn
    rw [show ((new u).receive body).mReadBuffer.length = n + 1 from hb,
      show ((new u).receive body).mCheckIdx + l.length + 2 = l.length + 2 from by
        rw [show ((new u).receive body).mCheckIdx = 0 from rfl, Nat.zero_add]] at hd
    exact hd

variable (env) in
/-- **`process_read` on a fresh object** does what `reading` says of the body. -/
theorem processRead_reads (u : Uninit) {body : List UInt8} (hroom : body.length < 2 ^ 16) :
    Does env ((new u).receive body) (processRead env ((new u).receive body)) (reading body) :=
  (processRead_ends env u hroom).does

end HttpServer

end ServerNginx
