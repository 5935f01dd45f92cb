import ServerNginx.Http.Lines

set_option autoImplicit false

/-!
# What the header handlers do

`ValueOk name v`: the conversions and searches of the handler of `name` succeed on the text `v`
behind the colon. `LineOk t`, `LineRejected t` and `lengthAfter t` say it of a whole line.

* `Cut lo hi h g`: the object `g` differs from `h` in the header members only, and in the bytes
  `[lo, hi)` of the packet;
* **`parseHeader_handled`**: `parse_header` ends in a fault exactly on the lines that are not
  `LineOk`, and cuts nothing but its line.
-/

namespace ServerNginx

open CString CNumber

/-- The conversion does not throw. -/
def converts {α : Type} : Except ConvError α → Bool
  | .ok _ => true
  | .error _ => false

/-- The texts `decompose_weight` converts, from `right` on. -/
def weightTextsFrom (t : List UInt8) : ℕ → ℕ → List (List UInt8)
  | 0, _ => []
  | n + 1, right =>
    match strchr (t.drop right) 59 with
    | none => []
    | some i =>
      let right := right + i + 1
      let right := right + strspn (t.drop right) blank
      if strncaseeq (t.drop right) (ascii "q=") 2 then
        let right := right + 2
        let right := right + strspn (t.drop right) blank
        t.drop right ::
          match strchr (t.drop right) 44 with
          | none => []
          | some j => weightTextsFrom t n (right + j + 1)
      else weightTextsFrom t n right

/-- The texts behind `;q=` in a header value. -/
def weightTexts (t : List UInt8) : List (List UInt8) := weightTextsFrom t (t.length + 1) 0

/-- What the handler of a header does with its text: converts a length, a range or weights, looks
for a `=` or for two quotes, or nothing that can fail. -/
inductive HeaderKind
  | plain
  | length
  | range
  | weights
  | cookie
  | quoted
  deriving DecidableEq, Repr

/-- The kinds of the handlers in `parse_header_func_map`. -/
def headerKinds : List (List UInt8 × HeaderKind) :=
  [(ascii "Connection", .plain), (ascii "Host", .plain), (ascii "Connect-Length", .length),
    (ascii "Range", .range), (ascii "If-Modified-Since", .plain), (ascii "Accept", .weights),
    (ascii "Accept-Charset", .weights), (ascii "Accept-Encoding", .weights),
    (ascii "Accept-Language", .weights), (ascii "Cookie", .cookie), (ascii "If-Match", .quoted)]

/-- The kind of the handler of a name, if there is one. -/
def headerKind (name : List UInt8) : Option HeaderKind := headerKinds.lookup name

/-- Both ends of a range convert, if there is a `-`. -/
def RangeOk (v : List UInt8) : Prop :=
  match strchr v 45 with
  | none => True
  | some i => converts (stoi (v.take i)) ∧ converts (stoi (v.drop (i + 1)))

instance (v : List UInt8) : Decidable (RangeOk v) := by
  unfold RangeOk
  split <;> infer_instance

/-- The handler of `name` converts and finds what it looks for in the text `v`. -/
def ValueOk (name v : List UInt8) : Prop :=
  let v := v.drop (strspn v blank)
  match headerKind name with
  | some .length => converts (stoi v)
  | some .range => strncaseeq v (ascii "bytes=") 6 → RangeOk (v.drop 6)
  | some .weights => ∀ x ∈ weightTexts v, converts (stof x)
  | some .cookie => (61 : UInt8) ∈ v
  | some .quoted => 2 ≤ v.count 34
  | some .plain => True
  | none => True

instance (name v : List UInt8) : Decidable (ValueOk name v) := by
  unfold ValueOk
  dsimp only
  split <;> infer_instance

/-- No handler has the name, or a range is not in bytes. -/
def ValueRejected (name v : List UInt8) : Prop :=
  match headerKind name with
  | none => True
  | some .range => strncaseeq (v.drop (strspn v blank)) (ascii "bytes=") 6 = false
  | _ => False

instance (name v : List UInt8) : Decidable (ValueRejected name v) := by
  unfold ValueRejected
  split <;> infer_instance

/-- `m_content_length` after a header. -/
def valueLength (name v : List UInt8) (n : ℤ) : ℤ :=
  match headerKind name with
  | some .length =>
    match stoi (v.drop (strspn v blank)) with
    | .ok m => m
    | .error _ => n
  | _ => n

namespace HttpServer

variable {env : Env} {h g k : HttpServer} {lo hi base i : ℕ} {t : List UInt8}

/-- The members no header handler touches. -/
def core (h : HttpServer) : HttpServer :=
  { h with
    mReadBuffer := []
    mVersion := none
    mCookieName := none
    mCookieValue := none
    mHost := none
    mETag := none
    mRangeStart := 0
    mRangeEnd := 0
    mContentLength := 0
    mIfModifiedSinceTime := 0
    mHeaderFuncVec := []
    mKeeplive := false }

/-- `g` is `h` but for the header members and NULs in `[lo, hi)`. -/
structure Cut (lo hi : ℕ) (h g : HttpServer) : Prop where
  length : g.mReadBuffer.length = h.mReadBuffer.length
  frame : ∀ i, i < lo ∨ hi ≤ i → g.mReadBuffer[i]? = h.mReadBuffer[i]?
  core : g.core = h.core

theorem Cut.of_core (hc : g.core = h.core) (hb : g.mReadBuffer = h.mReadBuffer) : Cut lo hi h g :=
  ⟨by rw [hb], fun _ _ => by rw [hb], hc⟩

theorem Cut.trans (h₁ : Cut lo hi h g) (h₂ : Cut lo hi g k) : Cut lo hi h k where
  length := h₂.length.trans h₁.length
  frame := fun i hi => (h₂.frame i hi).trans (h₁.frame i hi)
  core := h₂.core.trans h₁.core

theorem Cut.mono {lo' hi' : ℕ} (h₁ : Cut lo hi h g) (hlo : lo' ≤ lo) (hhi : hi ≤ hi') :
    Cut lo' hi' h g where
  length := h₁.length
  frame := fun i hi => h₁.frame i (by omega)
  core := h₁.core

theorem Cut.startIdx (hc : Cut lo hi h g) : g.mStartIdx = h.mStartIdx :=
  (congrArg mStartIdx hc.core :)

theorem Cut.checkIdx (hc : Cut lo hi h g) : g.mCheckIdx = h.mCheckIdx :=
  (congrArg mCheckIdx hc.core :)

theorem Cut.readIdx (hc : Cut lo hi h g) : g.mReadIdx = h.mReadIdx := (congrArg mReadIdx hc.core :)

theorem Cut.checkState (hc : Cut lo hi h g) : g.mCheckState = h.mCheckState :=
  (congrArg mCheckState hc.core :)

theorem Cut.method (hc : Cut lo hi h g) : g.mMethod = h.mMethod := (congrArg mMethod hc.core :)

theorem Cut.url (hc : Cut lo hi h g) : g.mUrl = h.mUrl := (congrArg mUrl hc.core :)

theorem Cut.pkt (hc : Cut lo hi h g) : g.pkt = h.pkt := (congrArg HttpServer.pkt hc.core :)

variable (lo hi) in
theorem cut_poke (hlo : lo ≤ i) (hhi : i < hi) (hlen : hi ≤ h.mReadBuffer.length) :
    ∃ g, h.poke i = .ok g ∧ Cut lo hi h g ∧ g.mContentLength = h.mContentLength := by
  refine ⟨_, poke_of_lt (hhi.trans_le hlen), ⟨by simp, fun j hj => ?_, rfl⟩, rfl⟩
  dsimp only
  rw [List.getElem?_set_ne (by omega)]

/-- The result of a handler on the text in `[lo, hi)`: a fault inside the body unless `ok`; else a
rejection, or the new content length. -/
structure Handled (r : Except Fault (HttpCode × HttpServer)) (h : HttpServer) (lo hi : ℕ)
    (ok rejected : Prop) (n : ℤ) : Prop where
  fault : ¬ ok → ∃ e, r = .error e ∧ e ≠ .readBuffer
  result : ok → ∃ code g, r = .ok (code, g) ∧ Cut lo hi h g ∧ g.mContentLength = n ∧
    (code = .badRequest ∧ rejected ∨ code = .noRequest ∧ ¬ rejected)

theorem Handled.set (hc : g.core = h.core) (hb : g.mReadBuffer = h.mReadBuffer) :
    Handled (.ok (.noRequest, g)) h lo hi True False g.mContentLength where
  fault := fun hf => absurd trivial hf
  result := fun _ => ⟨_, _, rfl, .of_core hc hb, rfl, Or.inr ⟨rfl, id⟩⟩

theorem connectionFunc_handled :
    Handled (h.connectionFunc t) h lo hi True False h.mContentLength := by
  unfold connectionFunc
  dsimp only
  split_ifs <;> exact .set rfl rfl

theorem connectLengthFunc_handled :
    Handled (h.connectLengthFunc t) h lo hi (converts (stoi (t.drop (strspn t blank)))) False
      (match stoi (t.drop (strspn t blank)) with
        | .ok m => m
        | .error _ => h.mContentLength) := by
  unfold connectLengthFunc
  cases hn : stoi (t.drop (strspn t blank)) with
  | error e => exact ⟨fun _ => ⟨_, rfl, nofun⟩, fun hf => nomatch hf⟩
  | ok n =>
    exact ⟨fun hf => absurd rfl hf, fun _ => ⟨_, _, rfl, .of_core rfl rfl, rfl, Or.inr ⟨rfl, id⟩⟩⟩

theorem rangeFunc_handled (hroom : base + t.length ≤ h.mReadBuffer.length) :
    Handled (h.rangeFunc base t) h base (base + t.length)
      (strncaseeq (t.drop (strspn t blank)) (ascii "bytes=") 6 →
        RangeOk ((t.drop (strspn t blank)).drop 6))
      (strncaseeq (t.drop (strspn t blank)) (ascii "bytes=") 6 = false) h.mContentLength := by
  unfold rangeFunc
  dsimp only
  by_cases hbytes : strncaseeq (t.drop (strspn t blank)) (ascii "bytes=") 6
  · simp only [hbytes, if_true, forall_const, Bool.true_eq_false]
    unfold RangeOk
    cases hi : strchr ((t.drop (strspn t blank)).drop 6) 45 with
    | none => exact .set rfl rfl
    | some i =>
      have hlt := strchr_lt hi
      rw [List.length_drop, List.length_drop] at hlt
      obtain ⟨g, hg, hcut, hlen⟩ := cut_poke base (base + t.length) (h := h)
        (i := base + strspn t blank + 6 + i) (by omega) (by omega) hroom
      simp only [hg, bind, Except.bind]
      cases hs : stoi (((t.drop (strspn t blank)).drop 6).take i) with
      | error e => exact ⟨fun _ => ⟨_, rfl, fun h => by cases h⟩, fun hf => by cases hf.1⟩
      | ok a =>
        cases he : stoi (((t.drop (strspn t blank)).drop 6).drop (i + 1)) with
        | error e => exact ⟨fun _ => ⟨_, rfl, fun h => by cases h⟩, fun hf => by cases hf.2⟩
        | ok b =>
          exact ⟨fun hf => absurd ⟨rfl, rfl⟩ hf, fun _ =>
            ⟨_, _, rfl, hcut.trans (.of_core rfl rfl), hlen, Or.inr ⟨rfl, id⟩⟩⟩
  · simp only [hbytes, if_false, Bool.false_eq_true]
    exact ⟨fun hf => absurd (fun hb => by cases hb) hf, fun _ =>
      ⟨_, _, rfl, .of_core rfl rfl, rfl, Or.inl ⟨rfl, trivial⟩⟩⟩

/-- The loop of `decompose_weight` faults exactly where a weight does not convert. -/
theorem decomposeWeightLoop_spec (hroom : base + t.length ≤ h.mReadBuffer.length) (n : ℕ) :
    ∀ (g : HttpServer) (left right : ℕ) (m : WeightMap), Cut base (base + t.length) h g →
      g.mContentLength = h.mContentLength →
      ((∀ x ∈ weightTextsFrom t n right, converts (stof x)) → ∃ m' k,
        decomposeWeightLoop base t n g left right m = .ok (m', k) ∧
          Cut base (base + t.length) h k ∧ k.mContentLength = h.mContentLength) ∧
      ((¬ ∀ x ∈ weightTextsFrom t n right, converts (stof x)) → ∃ e,
        decomposeWeightLoop base t n g left right m = .error e ∧ e ≠ .readBuffer) := by
  induction n with
  | zero =>
    intro g left right m hg hl
    exact ⟨fun _ => ⟨m, g, rfl, hg, hl⟩, fun hf => absurd (by simp [weightTextsFrom]) hf⟩
  | succ n ih =>
    intro g left right m hg hl
    rw [weightTextsFrom, decomposeWeightLoop]
    cases hi : strchr (t.drop right) 59 with
    | none => exact ⟨fun _ => ⟨_, g, rfl, hg, hl⟩, fun hf => absurd (by simp) hf⟩
    | some i =>
      have hlt := strchr_lt hi
      rw [List.length_drop] at hlt
      obtain ⟨k, hk, hcut, hkl⟩ := cut_poke base (base + t.length) (h := g)
        (i := base + (right + i)) (by omega) (by omega) (by rw [hg.length]; exact hroom)
      have hcut := hg.trans hcut
      have hkl := hkl.trans hl
      simp only [hk, bind, Except.bind]
      generalize right + i + 1 + strspn (t.drop (right + i + 1)) blank = q
      split_ifs with hq
      · generalize q + 2 + strspn (t.drop (q + 2)) blank = v
        simp only [List.forall_mem_cons]
        cases hw : stof (t.drop v) with
        | error e => exact ⟨fun hf => (nomatch hf.1), fun _ => ⟨_, rfl, nofun⟩⟩
        | ok w =>
          simp only [throwing]
          cases hj : strchr (t.drop v) 44 with
          | none => exact ⟨fun _ => ⟨_, k, rfl, hcut, hkl⟩, fun hf => absurd ⟨rfl, by simp⟩ hf⟩
          | some j =>
            have := ih k (v + j + 1) (v + j + 1)
              (m.emplace w ((t.drop left).takeWhile (· ≠ 59))) hcut hkl
            exact ⟨fun hf => this.1 hf.2, fun hf => this.2 fun hall => hf ⟨rfl, hall⟩⟩
      · exact ih k left q m hcut hkl

theorem acceptHandler_handled (member : HttpServer → WeightMap)
    (hroom : base + t.length ≤ h.mReadBuffer.length) :
    Handled (h.acceptHandler base t member) h base (base + t.length)
      (∀ x ∈ weightTexts (t.drop (strspn t blank)), converts (stof x)) False
      h.mContentLength := by
  have hdrop : base + strspn t blank + (t.drop (strspn t blank)).length = base + t.length := by
    have : strspn t blank ≤ t.length := strspn_le
    rw [List.length_drop]
    omega
  have hspec := @decomposeWeightLoop_spec h (base + strspn t blank) (t.drop (strspn t blank))
    (by omega) ((t.drop (strspn t blank)).length + 1) h 0 0 (member h)
    (.of_core rfl rfl) rfl
  unfold acceptHandler decomposeWeight
  constructor
  · intro hf
    obtain ⟨e, he, hne⟩ := hspec.2 hf
    simp only [he]
    exact ⟨e, rfl, hne⟩
  · intro hf
    obtain ⟨m, k, hk, hcut, hl⟩ := hspec.1 hf
    simp only [hk]
    exact ⟨_, k, rfl, hcut.mono (Nat.le_add_right _ _) hdrop.le, hl, Or.inr ⟨rfl, id⟩⟩

theorem cookieFunc_handled (hroom : base + t.length ≤ h.mReadBuffer.length) :
    Handled (h.cookieFunc base t) h base (base + t.length)
      ((61 : UInt8) ∈ t.drop (strspn t blank)) False h.mContentLength := by
  unfold cookieFunc
  dsimp only
  cases hi : strchr (t.drop (strspn t blank)) 61 with
  | none =>
    have hmem := strchr_eq_none_iff.mp hi
    exact ⟨fun _ => ⟨_, rfl, nofun⟩, fun hf => absurd hf hmem⟩
  | some i =>
    have hmem : (61 : UInt8) ∈ t.drop (strspn t blank) := by
      by_contra hn
      rw [strchr_eq_none_iff.mpr hn] at hi
      cases hi
    have hlt := strchr_lt hi
    rw [List.length_drop] at hlt
    obtain ⟨g, hg, hcut, hlen⟩ := cut_poke base (base + t.length) (h := h)
      (i := base + strspn t blank + i) (by omega) (by omega) hroom
    simp only [hg, bind, Except.bind]
    exact ⟨fun hf => absurd hmem hf, fun _ =>
      ⟨_, _, rfl, hcut.trans (.of_core rfl rfl), hlen, Or.inr ⟨rfl, id⟩⟩⟩

theorem two_le_count_iff {v : List UInt8} {c : UInt8} {i : ℕ} (hi : strchr v c = some i) :
    2 ≤ v.count c ↔ c ∈ v.drop (i + 1) := by
  obtain ⟨hlt, hc, hbefore⟩ := List.findIdx?_eq_some_iff_getElem.mp hi
  have hc : v[i] = c := by simpa using hc
  have hnot : c ∉ v.take i := by
    intro hm
    obtain ⟨j, hj, hjc⟩ := List.mem_iff_getElem.mp hm
    rw [List.length_take] at hj
    rw [List.getElem_take] at hjc
    exact hbefore j (by omega) (by simpa using hjc)
  have hsplit : v.count c = 1 + (v.drop (i + 1)).count c := by
    conv_lhs => rw [← List.take_append_drop i v, List.count_append, List.count_eq_zero.mpr hnot,
      List.drop_eq_getElem_cons hlt, hc, List.count_cons_self]
    omega
  rw [hsplit, ← List.count_pos_iff]
  omega

theorem ifMatchFunc_handled (hroom : base + t.length ≤ h.mReadBuffer.length) :
    Handled (h.ifMatchFunc base t) h base (base + t.length)
      (2 ≤ (t.drop (strspn t blank)).count 34) False h.mContentLength := by
  unfold ifMatchFunc
  dsimp only
  cases hi : strchr (t.drop (strspn t blank)) 34 with
  | none =>
    have hzero := List.count_eq_zero.mpr (strchr_eq_none_iff.mp hi)
    exact ⟨fun _ => ⟨_, rfl, nofun⟩, fun hf => by omega⟩
  | some i =>
    have hlt := strchr_lt hi
    rw [List.length_drop] at hlt
    obtain ⟨g, hg, hcut, hlen⟩ := cut_poke base (base + t.length) (h := h)
      (i := base + strspn t blank + i) (by omega) (by omega) hroom
    simp only [hg, bind, Except.bind, two_le_count_iff hi]
    cases hj : strchr ((t.drop (strspn t blank)).drop (i + 1)) 34 with
    | none => exact ⟨fun _ => ⟨_, rfl, nofun⟩, fun hf => absurd hf (strchr_eq_none_iff.mp hj)⟩
    | some j =>
      have hmem : (34 : UInt8) ∈ (t.drop (strspn t blank)).drop (i + 1) := by
        by_contra hn
        rw [strchr_eq_none_iff.mpr hn] at hj
        cases hj
      have hltj := strchr_lt hj
      rw [List.length_drop, List.length_drop] at hltj
      obtain ⟨k, hk, hcut', hlen'⟩ := cut_poke base (base + t.length) (h := g)
        (i := base + strspn t blank + (i + 1 + j)) (by omega) (by omega)
        (by rw [hcut.length]; exact hroom)
      simp only [hk]
      exact ⟨fun hf => absurd hmem hf, fun _ => ⟨_, _, rfl,
        (hcut.trans hcut').trans (.of_core rfl rfl), hlen'.trans hlen, Or.inr ⟨rfl, id⟩⟩⟩

/-! ## The map of handlers -/

theorem map_fst_parseHeaderFuncMap :
    (parseHeaderFuncMap env).map Prod.fst = headerKinds.map Prod.fst := rfl

theorem lookup_eq_none_iff {name : List UInt8} :
    (parseHeaderFuncMap env).lookup name = none ↔ headerKind name = none := by
  have hnames : ∀ {β : Type} (l : List (List UInt8 × β)),
      l.lookup name = none ↔ name ∉ l.map Prod.fst := fun l => by
    rw [List.lookup_eq_none_iff]
    constructor
    · intro h hm
      obtain ⟨x, hx, rfl⟩ := List.mem_map.mp hm
      exact absurd (h x hx) (by simp)
    · intro h x hx
      rw [bne_iff_ne]
      rintro rfl
      exact h (List.mem_map.mpr ⟨x, hx, rfl⟩)
  rw [headerKind, hnames, hnames, map_fst_parseHeaderFuncMap]

theorem mem_of_lookup {name : List UInt8} {f : ParseHeaderFunc}
    (hf : (parseHeaderFuncMap env).lookup name = some f) : (name, f) ∈ parseHeaderFuncMap env := by
  obtain ⟨l₁, l₂, hl, -⟩ := List.lookup_eq_some_iff.mp hf
  rw [hl]
  exact List.mem_append_right _ List.mem_cons_self

theorem Handled.of_kind {r : Except Fault (HttpCode × HttpServer)} {ok rej : Prop} {n : ℤ}
    {name : List UInt8} (hh : Handled r h lo hi ok rej n) (ho : ValueOk name t = ok)
    (hr : ValueRejected name t = rej) (hn : valueLength name t h.mContentLength = n) :
    Handled r h lo hi (ValueOk name t) (ValueRejected name t)
      (valueLength name t h.mContentLength) := by
  rw [ho, hr, hn]
  exact hh

/-- **Every handler** does what its name and its text say. -/
theorem handler_handled {name : List UInt8} {f : ParseHeaderFunc}
    (hf : (parseHeaderFuncMap env).lookup name = some f)
    (hroom : base + t.length ≤ h.mReadBuffer.length) :
    Handled (f h base t) h base (base + t.length) (ValueOk name t) (ValueRejected name t)
      (valueLength name t h.mContentLength) := by
  have hmem := mem_of_lookup hf
  -- the handlers of one kind have one specification
  have plain : ∀ {r : Except Fault (HttpCode × HttpServer)}, headerKind name = some .plain →
      Handled r h base (base + t.length) True False h.mContentLength →
      Handled r h base (base + t.length) (ValueOk name t) (ValueRejected name t)
        (valueLength name t h.mContentLength) := fun hk hh =>
    hh.of_kind (by simp only [ValueOk, hk]) (by simp only [ValueRejected, hk])
      (by simp only [valueLength, hk])
  have weights : ∀ {member : HttpServer → WeightMap}, headerKind name = some .weights →
      Handled (h.acceptHandler base t member) h base (base + t.length) (ValueOk name t)
        (ValueRejected name t) (valueLength name t h.mContentLength) := fun hk =>
    (acceptHandler_handled _ hroom).of_kind (by simp only [ValueOk, hk])
      (by simp only [ValueRejected, hk]) (by simp only [valueLength, hk])
  simp only [parseHeaderFuncMap, List.mem_cons, List.not_mem_nil, or_false, Prod.mk.injEq] at hmem
  rcases hmem with ⟨rfl, rfl⟩ | ⟨rfl, rfl⟩ | ⟨rfl, rfl⟩ | ⟨rfl, rfl⟩ | ⟨rfl, rfl⟩ | ⟨rfl, rfl⟩ |
    ⟨rfl, rfl⟩ | ⟨rfl, rfl⟩ | ⟨rfl, rfl⟩ | ⟨rfl, rfl⟩ | ⟨rfl, rfl⟩
  · exact plain (by decide +kernel) connectionFunc_handled
  · exact plain (by decide +kernel) (.set rfl rfl)
  · have hk : headerKind (ascii "Connect-Length") = some .length := by decide +kernel
    exact connectLengthFunc_handled.of_kind (by simp only [ValueOk, hk])
      (by simp only [ValueRejected, hk]) (by simp only [valueLength, hk])
  · have hk : headerKind (ascii "Range") = some .range := by decide +kernel
    exact (rangeFunc_handled hroom).of_kind (by simp only [ValueOk, hk])
      (by simp only [ValueRejected, hk]) (by simp only [valueLength, hk])
  · exact plain (by decide +kernel) (.set rfl rfl)
  · exact weights (by decide +kernel)
  · exact weights (by decide +kernel)
  · exact weights (by decide +kernel)
  · exact weights (by decide +kernel)
  · have hk : headerKind (ascii "Cookie") = some .cookie := by decide +kernel
    exact (cookieFunc_handled hroom).of_kind (by simp only [ValueOk, hk])
      (by simp only [ValueRejected, hk]) (by simp only [valueLength, hk])
  · have hk : headerKind (ascii "If-Match") = some .quoted := by decide +kernel
    exact (ifMatchFunc_handled hroom).of_kind (by simp only [ValueOk, hk])
      (by simp only [ValueRejected, hk]) (by simp only [valueLength, hk])

end HttpServer

/-! ## Whole lines -/

/-- The name and the text of a header line. -/
def headerParts (t : List UInt8) : Option (List UInt8 × List UInt8) :=
  (strchr t 58).map fun i => (t.take i, t.drop (i + 1))

/-- The line has a colon and its handler does not fault. -/
def LineOk (t : List UInt8) : Prop :=
  match headerParts t with
  | none => False
  | some (name, v) => ValueOk name v

/-- `parse_header` answers the line with `BAD_REQUEST`. -/
def LineRejected (t : List UInt8) : Prop :=
  match headerParts t with
  | none => False
  | some (name, v) => ValueRejected name v

/-- `m_content_length` after the line. -/
def lengthAfter (t : List UInt8) (n : ℤ) : ℤ :=
  match headerParts t with
  | none => n
  | some (name, v) => valueLength name v n

instance (t : List UInt8) : Decidable (LineOk t) := by
  unfold LineOk
  split <;> infer_instance

instance (t : List UInt8) : Decidable (LineRejected t) := by
  unfold LineRejected
  split <;> infer_instance

theorem lengthAfter_bounds {t : List UInt8} {n : ℤ} (hn : -2 ^ 31 ≤ n ∧ n < 2 ^ 31) :
    -2 ^ 31 ≤ lengthAfter t n ∧ lengthAfter t n < 2 ^ 31 := by
  unfold lengthAfter valueLength
  split
  · exact hn
  · split
    · split
      · exact stoi_bounds ‹_›
      · exact hn
    · exact hn

namespace HttpServer

variable {env : Env} {h : HttpServer} {base : ℕ} {t : List UInt8}

variable (env) in
/-- **`parse_header` on a line that is not empty** faults exactly where the line is not `LineOk`. -/
theorem parseHeader_handled (ht : t ≠ []) (hroom : base + t.length ≤ h.mReadBuffer.length) :
    Handled (parseHeader env h base t) h base (base + t.length) (LineOk t) (LineRejected t)
      (lengthAfter t h.mContentLength) := by
  unfold parseHeader LineOk LineRejected lengthAfter headerParts
  rw [if_neg ht]
  cases hi : strchr t 58 with
  | none => exact ⟨fun _ => ⟨_, rfl, nofun⟩, fun hf => nomatch hf⟩
  | some i =>
    have hlt := strchr_lt hi
    obtain ⟨g, hg, hcut, hlen⟩ := cut_poke base (base + t.length) (h := h)
      (i := base + i) (by omega) (by omega) hroom
    simp only [hg, bind, Except.bind, Option.map_some]
    cases hf : (parseHeaderFuncMap env).lookup (t.take i) with
    | none =>
      have hk := lookup_eq_none_iff.mp hf
      have hrej : ValueRejected (t.take i) (t.drop (i + 1)) := by
        simp only [ValueRejected, hk]
      have hok : ValueOk (t.take i) (t.drop (i + 1)) := by
        simp only [ValueOk, hk]
      have hval : valueLength (t.take i) (t.drop (i + 1)) h.mContentLength = h.mContentLength := by
        simp only [valueLength, hk]
      exact ⟨fun hn => absurd hok hn, fun _ =>
        ⟨_, _, rfl, hcut, hlen.trans hval.symm, Or.inl ⟨rfl, hrej⟩⟩⟩
    | some f =>
      have hend : base + i + 1 + (t.drop (i + 1)).length = base + t.length := by
        rw [List.length_drop]
        omega
      have hh := @handler_handled env g (base + i + 1) (t.drop (i + 1)) _ _ hf
        (by rw [hend, hcut.length]; exact hroom)
      rw [hend, hlen] at hh
      constructor
      · exact hh.fault
      · intro ho
        obtain ⟨code, k, hk, hcut', hres⟩ := hh.result ho
        exact ⟨code, k, hk, hcut.trans (hcut'.mono (by omega) le_rfl), hres⟩

/-- **Where `parse_header` returns**, the empty line has led to the content or is the last one, or
the line was cut by a handler. -/
theorem parseHeader_of_ok {c : HttpCode} {g : HttpServer}
    (hroom : base + t.length ≤ h.mReadBuffer.length) (hr : parseHeader env h base t = .ok (c, g)) :
    (c = .noRequest ∧ 0 < h.mContentLength ∧ g = { h with mCheckState := .content }) ∨
      (c = .getRequest ∧ g = h) ∨ (c ≠ .getRequest ∧ Cut base (base + t.length) h g) := by
  by_cases hnil : t = []
  · rw [parseHeader, if_pos hnil] at hr
    split_ifs at hr with hpos
    · cases hr
      exact Or.inl ⟨rfl, hpos, rfl⟩
    · cases hr
      exact Or.inr (Or.inl ⟨rfl, rfl⟩)
  · have hh := parseHeader_handled env hnil hroom
    by_cases hok : LineOk t
    · obtain ⟨code, k, hk, hcut, -, hcode⟩ := hh.result hok
      cases hk.symm.trans hr
      obtain ⟨rfl, -⟩ | ⟨rfl, -⟩ := hcode
      · exact Or.inr (Or.inr ⟨by decide, hcut⟩)
      · exact Or.inr (Or.inr ⟨by decide, hcut⟩)
    · obtain ⟨e, he, -⟩ := hh.fault hok
      cases he.symm.trans hr

end HttpServer

end ServerNginx
