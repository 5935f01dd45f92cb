import ServerNginx.Http.HeaderSpec
import ServerNginx.Lib.Post

set_option autoImplicit false

/-!
# What a response depends on

`Asked` collects the members that the header lines set and the response reads. `Asked.line` is the
effect of a header line on them, and `Asked.headers` that of the lines up to the one that ends them.

**`parseHeader_asked`**: `parse_header` has the effect `Asked.line` says.
-/

namespace ServerNginx

open CString CNumber

/-- The members of an object its response depends on. -/
structure Asked where
  method : Method
  contentLength : ℤ
  rangeStart : ℤ
  rangeEnd : ℤ
  ifModifiedSince : ℤ
  cookie : Bool
  callbacks : List Callback
  stat : Stat
  deriving DecidableEq

namespace Asked

variable (env : Env) (a : Asked)

/-- A length of the content. -/
def length (v : List UInt8) : Asked :=
  match stoi v with
  | .ok n => { a with contentLength := n }
  | .error _ => a

/-- A range, behind `bytes=`. -/
def range (v : List UInt8) : Asked :=
  let a := { a with callbacks := a.callbacks ++ [.range] }
  match strchr v 45 with
  | none => a
  | some i =>
    match stoi (v.take i), stoi (v.drop (i + 1)) with
    | .ok start, .ok stop => { a with rangeStart := start, rangeEnd := stop }
    | _, _ => a

/-- The header `name` with the text `v`. -/
def value (name v : List UInt8) : Asked :=
  let v := v.drop (strspn v blank)
  if name = ascii "Connect-Length" then a.length v
  else if name = ascii "Range" then
    if strncaseeq v (ascii "bytes=") 6 then a.range (v.drop 6) else a
  else if name = ascii "If-Modified-Since" then { a with ifModifiedSince := env.timeOfStr v }
  else if name = ascii "Cookie" then { a with cookie := true }
  else a

/-- A header line. -/
def line (t : List UInt8) : Asked :=
  match headerParts t with
  | none => a
  | some (name, v) => a.value env name v

/-- The method of a request line, in front of the first blank. -/
def requestMethod (old : Method) (t : List UInt8) : Method :=
  match strpbrk t blank with
  | none => old
  | some i => HttpServer.methodOf (t.take i) old

/-- The request line. -/
def request (t : List UInt8) : Asked := { a with method := requestMethod a.method t }

/-- The header lines, up to the one that ends them, is rejected or cannot be parsed. -/
def headers : Asked → List (List UInt8) → Asked
  | a, [] => a
  | a, l :: ls =>
    if lineText l = [] ∨ ¬ LineOk (lineText l) then a
    else if LineRejected (lineText l) then a.line env (lineText l)
    else headers (a.line env (lineText l)) ls

end Asked

namespace HttpServer

variable {env : Env} {h g : HttpServer} {base i : ℕ} {t name : List UInt8}

/-- The members the response depends on. -/
def asked (h : HttpServer) : Asked where
  method := h.mMethod
  contentLength := h.mContentLength
  rangeStart := h.mRangeStart
  rangeEnd := h.mRangeEnd
  ifModifiedSince := h.mIfModifiedSinceTime
  cookie := h.mCookieValue.isSome
  callbacks := h.mHeaderFuncVec
  stat := h.mStat

/-- A function that leaves `a` in the members the response depends on, if it does not fault. -/
def Asks (r : Except Fault (HttpCode × HttpServer)) (a : Asked) : Prop :=
  Post r (fun _ => True) fun q => q.2.asked = a

theorem poke_packet :
    Post (h.poke i) (fun _ => True) fun g => ∃ b, g = { h with mReadBuffer := b } := by
  unfold poke
  split_ifs
  · exact ⟨_, rfl⟩
  · trivial

theorem poke_asked : Post (h.poke i) (fun _ => True) fun g => g.asked = h.asked :=
  poke_packet.mono fun _ hg => by
    obtain ⟨b, rfl⟩ := hg
    rfl

theorem connectionFunc_asks : Asks (h.connectionFunc t) h.asked := by
  unfold connectionFunc
  dsimp only
  split_ifs <;> exact rfl

theorem connectLengthFunc_asks :
    Asks (h.connectLengthFunc t) (h.asked.length (t.drop (strspn t blank))) := by
  unfold connectLengthFunc Asked.length
  cases stoi (t.drop (strspn t blank)) with
  | error e => trivial
  | ok n => exact rfl

theorem rangeFunc_asks : Asks (h.rangeFunc base t)
    (if strncaseeq (t.drop (strspn t blank)) (ascii "bytes=") 6 then
      h.asked.range ((t.drop (strspn t blank)).drop 6)
    else h.asked) := by
  unfold rangeFunc Asked.range
  dsimp only
  split_ifs
  · cases strchr ((t.drop (strspn t blank)).drop 6) 45 with
    | none => exact rfl
    | some i =>
      refine poke_asked.bind fun g hg => ?_
      cases hs : stoi (((t.drop (strspn t blank)).drop 6).take i) with
      | error e => trivial
      | ok start =>
        cases he : stoi (((t.drop (strspn t blank)).drop 6).drop (i + 1)) with
        | error e => trivial
        | ok stop =>
          simp only [hs, he, ← hg]
          exact rfl
  · exact rfl

theorem decomposeWeightLoop_packet (n : ℕ) : ∀ (g : HttpServer) (left right : ℕ) (m : WeightMap),
    Post (decomposeWeightLoop base t n g left right m) (fun _ => True)
      fun r => ∃ b, r.2 = { g with mReadBuffer := b } := by
  induction n with
  | zero => exact fun _ _ _ _ => ⟨_, rfl⟩
  | succ n ih =>
    intro g left right m
    rw [decomposeWeightLoop]
    cases strchr (t.drop right) 59 with
    | none => exact ⟨_, rfl⟩
    | some i =>
      refine poke_packet.bind fun k hk => ?_
      obtain ⟨b, rfl⟩ := hk
      dsimp only
      generalize right + i + 1 + strspn (t.drop (right + i + 1)) blank = q
      split_ifs
      · generalize q + 2 + strspn (t.drop (q + 2)) blank = v
        cases stof (t.drop v) with
        | error e => trivial
        | ok w =>
          simp only [throwing, bind, Except.bind]
          cases strchr (t.drop v) 44 with
          | none => exact ⟨_, rfl⟩
          | some j => exact ih { g with mReadBuffer := b } _ _ _
      · exact ih { g with mReadBuffer := b } _ _ _

theorem acceptHandler_packet (member : HttpServer → WeightMap) :
    Post (h.acceptHandler base t member) (fun _ => True)
      fun r => ∃ b, r.2 = { h with mReadBuffer := b } :=
  Post.bind (decomposeWeightLoop_packet _ h _ _ _) fun _ hr => hr

theorem acceptHandler_asks (member : HttpServer → WeightMap) :
    Asks (h.acceptHandler base t member) h.asked :=
  (acceptHandler_packet member).mono fun _ ⟨_, hr⟩ => by
    rw [hr]
    rfl

theorem cookieFunc_asks : Asks (h.cookieFunc base t) { h.asked with cookie := true } := by
  unfold cookieFunc
  dsimp only
  cases strchr (t.drop (strspn t blank)) 61 with
  | none => trivial
  | some i =>
    refine poke_asked.bind fun g hg => ?_
    rw [← hg]
    exact rfl

theorem ifMatchFunc_asks : Asks (h.ifMatchFunc base t) h.asked := by
  unfold ifMatchFunc
  dsimp only
  cases strchr (t.drop (strspn t blank)) 34 with
  | none => trivial
  | some i =>
    refine poke_asked.bind fun g hg => ?_
    cases strchr ((t.drop (strspn t blank)).drop (i + 1)) 34 with
    | none => trivial
    | some j => exact poke_asked.bind fun k hk => hk.trans hg

theorem value_of_ne (a : Asked) (v : List UInt8) (h₁ : name ≠ ascii "Connect-Length")
    (h₂ : name ≠ ascii "Range") (h₃ : name ≠ ascii "If-Modified-Since")
    (h₄ : name ≠ ascii "Cookie") : a.value env name v = a := by
  simp [Asked.value, h₁, h₂, h₃, h₄]

theorem handler_asks {f : ParseHeaderFunc} (hf : (parseHeaderFuncMap env).lookup name = some f) :
    Asks (f h base t) (h.asked.value env name t) := by
  have hmem := mem_of_lookup hf
  simp only [parseHeaderFuncMap, List.mem_cons, List.not_mem_nil, or_false, Prod.mk.injEq] at hmem
  have other : ∀ {r : Except Fault (HttpCode × HttpServer)} {name : List UInt8},
      name ≠ ascii "Connect-Length" ∧ name ≠ ascii "Range" ∧ name ≠ ascii "If-Modified-Since" ∧
        name ≠ ascii "Cookie" → Asks r h.asked → Asks r (h.asked.value env name t) := by
    rintro r name ⟨h₁, h₂, h₃, h₄⟩ hr
    rw [value_of_ne _ _ h₁ h₂ h₃ h₄]
    exact hr
  rcases hmem with ⟨rfl, rfl⟩ | ⟨rfl, rfl⟩ | ⟨rfl, rfl⟩ | ⟨rfl, rfl⟩ | ⟨rfl, rfl⟩ | ⟨rfl, rfl⟩ |
    ⟨rfl, rfl⟩ | ⟨rfl, rfl⟩ | ⟨rfl, rfl⟩ | ⟨rfl, rfl⟩ | ⟨rfl, rfl⟩
  · exact other (by decide) connectionFunc_asks
  · exact other (by decide) rfl
  · exact connectLengthFunc_asks
  · exact rangeFunc_asks
  · exact rfl
  · exact other (by decide) (acceptHandler_asks _)
  · exact other (by decide) (acceptHandler_asks _)
  · exact other (by decide) (acceptHandler_asks _)
  · exact other (by decide) (acceptHandler_asks _)
  · exact cookieFunc_asks
  · exact other (by decide) ifMatchFunc_asks

variable (h base t) in
theorem parseRequest_asked : Asks (h.parseRequest base t) (h.asked.request t) := by
  unfold parseRequest Asked.request Asked.requestMethod
  cases strpbrk t blank with
  | none => exact rfl
  | some i =>
    refine poke_asked.bind fun g hg => ?_
    have hset : ∀ m : Method, { g.asked with method := m } = { h.asked with method := m } :=
      fun m => by rw [hg]
    have hm : g.mMethod = h.mMethod := congrArg Asked.method hg
    rw [hm]
    dsimp only
    generalize i + 1 + strspn (t.drop (i + 1)) blank = u
    cases strpbrk (t.drop u) blank with
    | none => exact hset _
    | some j =>
      refine poke_asked.bind fun k hk => ?_
      split_ifs
      · exact hk.trans (hset _)
      · exact hk.trans (hset _)
      · split <;> exact hk.trans (hset _)

variable (env h base t) in
/-- **`parse_header`** changes what the response depends on as `Asked.line` says. -/
theorem parseHeader_asked : Asks (parseHeader env h base t) (h.asked.line env t) := by
  unfold parseHeader Asked.line headerParts
  by_cases hnil : t = []
  · subst hnil
    rw [if_pos rfl]
    split_ifs <;> exact rfl
  · rw [if_neg hnil]
    cases strchr t 58 with
    | none => trivial
    | some i =>
      refine poke_asked.bind fun g hg => ?_
      rw [Option.map_some, ← hg]
      cases hf : (parseHeaderFuncMap env).lookup (t.take i) with
      | some f => exact handler_asks hf
      | none =>
        have hkind : headerKind (t.take i) = none := lookup_eq_none_iff.mp hf
        have hne : ∀ {name : List UInt8}, headerKind name ≠ none → t.take i ≠ name := by
          rintro name hn rfl
          exact hn hkind
        refine (value_of_ne _ _ (hne ?_) (hne ?_) (hne ?_) (hne ?_)).symm <;> decide

end HttpServer

end ServerNginx
