import ServerNginx.Http.Asked
import ServerNginx.Http.Served
import ServerNginx.Http.Written
import ServerNginx.Lib.Run

set_option autoImplicit false

/-!
# Weights of the `Accept` headers

`decompose_weight` gets the map it is to fill by value. So the four members are written by nothing
in the program: `call` is any member function that changes an object, `call_weightMaps` says that it
leaves the members as they are, and **`weights_never_recorded`** that after no handler of an
`Accept` header its member lists the items of the value.
-/

namespace ServerNginx

open CString CNumber

/-- `item1;q=w1,item2;q=w2,...`: the items in front of the last with their weights, and the last,
whose weight may be missing. -/
structure AcceptValue where
  init : List (List UInt8 × List UInt8)
  last : List UInt8
  weight : Option (List UInt8)

namespace AcceptValue

variable (v : AcceptValue)

def text : List UInt8 :=
  (v.init.flatMap fun p => p.1 ++ ascii ";q=" ++ p.2 ++ ascii ",") ++ v.last ++
    match v.weight with
    | none => []
    | some w => ascii ";q=" ++ w

/-- The items with their weights; a missing one is 1. -/
def items : List (List UInt8 × List UInt8) := v.init ++ [(v.last, v.weight.getD (ascii "1"))]

/-- Items without separators, and weights that can be parsed. -/
def WellFormed : Prop :=
  ∀ p ∈ v.items, (∀ b ∈ p.1, b ≠ 0 ∧ b ∉ ascii ";,") ∧ (∀ b ∈ p.2, b ≠ 0 ∧ b ∉ ascii ";,") ∧
    (stof p.2).toOption.isSome

instance : Decidable v.WellFormed := inferInstanceAs (Decidable (∀ p ∈ v.items, _))

/-- The map lists every item under its weight. -/
def ListedIn (m : WeightMap) : Prop := ∀ p ∈ v.items, ∃ w, stof p.2 = .ok w ∧ (w, p.1) ∈ m

end AcceptValue

/-- The headers with weights. -/
inductive AcceptHeader
  | accept
  | acceptCharset
  | acceptEncoding
  | acceptLanguage

namespace AcceptHeader

/-- The member of the header. -/
def member : AcceptHeader → HttpServer → WeightMap
  | .accept => HttpServer.acceptMap
  | .acceptCharset => HttpServer.acceptCharsetMap
  | .acceptEncoding => HttpServer.acceptEncodingMap
  | .acceptLanguage => HttpServer.acceptLanguageMap

/-- The handler of the header. -/
def func : AcceptHeader → HttpServer.ParseHeaderFunc
  | .accept => HttpServer.acceptFunc
  | .acceptCharset => HttpServer.acceptCharsetFunc
  | .acceptEncoding => HttpServer.acceptEncodingFunc
  | .acceptLanguage => HttpServer.acceptLanguageFunc

/-- After the handler has run on the value at index `base`, the member lists its items. -/
def Records (f : AcceptHeader) (h : HttpServer) (base : ℕ) (v : AcceptValue) : Prop :=
  ∃ code g, f.func h base v.text = .ok (code, g) ∧ v.ListedIn (f.member g)

end AcceptHeader

namespace HttpServer

variable {env : Env} {h g : HttpServer} {base i : ℕ} {t : List UInt8}

/-- The four maps. -/
def weightMaps (h : HttpServer) : List WeightMap :=
  [h.acceptMap, h.acceptCharsetMap, h.acceptEncodingMap, h.acceptLanguageMap]

/-- A member function that leaves the maps as they are, if it does not fault. -/
def KeepsMaps {α : Type} (h : HttpServer) (r : Except Fault (α × HttpServer)) : Prop :=
  Post r (fun _ => True) fun q => q.2.weightMaps = h.weightMaps

/-- A call of a member function. -/
inductive Call
  | receive (body : List UInt8)
  | parseLine
  | startNext
  | poke (i : ℕ)
  | parseRequest (base : ℕ) (t : List UInt8)
  | parseHeader (env : Env) (base : ℕ) (t : List UInt8)
  | parseContent (base : ℕ)
  | doRequest (env : Env)
  | reply (env : Env) (pkgHeader : List UInt8) (code : HttpCode)

/-- What a call makes of the object; a fault ends the process. -/
def call (h : HttpServer) : Call → Option (HttpServer × List HttpCode)
  | .receive body => some (h.receive body, [])
  | .parseLine => h.parseLine.toOption.map fun r => (r.2, [])
  | .startNext => some (h.startNext, [])
  | .poke i => (h.poke i).toOption.map (·, [])
  | .parseRequest base t => (h.parseRequest base t).toOption.map fun r => (r.2, [r.1])
  | .parseHeader env base t => (h.parseHeader env base t).toOption.map fun r => (r.2, [r.1])
  | .parseContent base => (h.parseContent base).toOption.map fun r => (r.2, [r.1])
  | .doRequest env => (h.doRequest env).toOption.map fun r => (r.2, [r.1])
  | .reply env pkgHeader code =>
    (HttpServer.reply env pkgHeader code h).toOption.map fun r => (r.obj, [r.code])

/-! ## One call -/

theorem KeepsMaps.of_eq {α : Type} {r : Except Fault (α × HttpServer)} (hr : KeepsMaps g r)
    (hg : g.weightMaps = h.weightMaps) : KeepsMaps h r :=
  Post.mono hr fun _ hq => hq.trans hg

theorem poke_weightMaps : Post (h.poke i) (fun _ => True) fun g => g.weightMaps = h.weightMaps :=
  poke_packet.mono fun _ hg => by
    obtain ⟨b, rfl⟩ := hg
    rfl

theorem parseLine_keepsMaps : KeepsMaps h h.parseLine := by
  unfold parseLine
  generalize h.mReadIdx - h.mCheckIdx = n
  have cut : ∀ h : HttpServer, KeepsMaps h h.cutLine := fun h =>
    poke_weightMaps.bind fun g hg => poke_weightMaps.bind fun k hk => hk.trans hg
  induction n generalizing h with
  | zero => exact rfl
  | succ n ih =>
    rw [parseLineLoop]
    cases h.mReadBuffer[h.mCheckIdx]? with
    | none => trivial
    | some temp =>
      dsimp only
      split_ifs
      · exact rfl
      · cases h.mReadBuffer[h.mCheckIdx + 1]? with
        | none => trivial
        | some c =>
          dsimp only
          split_ifs
          · exact cut h
          · exact rfl
      · exact cut h
      · exact rfl
      · exact KeepsMaps.of_eq ih rfl

theorem parseRequest_keepsMaps : KeepsMaps h (h.parseRequest base t) := by
  unfold parseRequest
  cases strpbrk t blank with
  | none => exact rfl
  | some i =>
    refine poke_weightMaps.bind fun g hg => ?_
    dsimp only
    generalize i + 1 + strspn (t.drop (i + 1)) blank = u
    cases strpbrk (t.drop u) blank with
    | none => exact hg
    | some j =>
      refine poke_weightMaps.bind fun k hk => ?_
      have hkh : k.weightMaps = h.weightMaps := hk.trans hg
      split_ifs
      · exact hkh
      · exact hkh
      · split <;> exact hkh

/-- **The map is passed by value.** -/
theorem acceptHandler_keepsMaps (member : HttpServer → WeightMap) :
    KeepsMaps h (h.acceptHandler base t member) :=
  (acceptHandler_packet member).mono fun _ ⟨_, hr⟩ => by
    rw [hr]
    rfl

theorem connectionFunc_keepsMaps : KeepsMaps h (h.connectionFunc t) := by
  unfold connectionFunc
  dsimp only
  split_ifs <;> exact rfl

theorem connectLengthFunc_keepsMaps : KeepsMaps h (h.connectLengthFunc t) := by
  unfold connectLengthFunc
  cases stoi (t.drop (strspn t blank)) with
  | error e => trivial
  | ok n => exact rfl

theorem cookieFunc_keepsMaps : KeepsMaps h (h.cookieFunc base t) := by
  unfold cookieFunc
  dsimp only
  cases strchr (t.drop (strspn t blank)) 61 with
  | none => trivial
  | some i => exact poke_weightMaps.bind fun g hg => hg

theorem rangeFunc_keepsMaps : KeepsMaps h (h.rangeFunc base t) := by
  unfold rangeFunc
  dsimp only
  split_ifs
  · cases strchr ((t.drop (strspn t blank)).drop 6) 45 with
    | none => exact rfl
    | some i =>
      refine poke_weightMaps.bind fun g hg => ?_
      cases stoi (((t.drop (strspn t blank)).drop 6).take i) with
      | error e => trivial
      | ok start =>
        cases stoi (((t.drop (strspn t blank)).drop 6).drop (i + 1)) with
        | error e => trivial
        | ok stop => exact hg
  · exact rfl

theorem ifMatchFunc_keepsMaps : KeepsMaps h (h.ifMatchFunc base t) := by
  unfold ifMatchFunc
  dsimp only
  cases strchr (t.drop (strspn t blank)) 34 with
  | none => trivial
  | some i =>
    refine poke_weightMaps.bind fun g hg => ?_
    cases strchr ((t.drop (strspn t blank)).drop (i + 1)) 34 with
    | none => trivial
    | some j => exact poke_weightMaps.bind fun k hk => hk.trans hg

theorem handler_keepsMaps {name : List UInt8} {f : ParseHeaderFunc}
    (hf : (parseHeaderFuncMap env).lookup name = some f) : KeepsMaps h (f h base t) := by
  have hmem := mem_of_lookup hf
  simp only [parseHeaderFuncMap, List.mem_cons, List.not_mem_nil, or_false, Prod.mk.injEq] at hmem
  rcases hmem with ⟨rfl, rfl⟩ | ⟨rfl, rfl⟩ | ⟨rfl, rfl⟩ | ⟨rfl, rfl⟩ | ⟨rfl, rfl⟩ | ⟨rfl, rfl⟩ |
    ⟨rfl, rfl⟩ | ⟨rfl, rfl⟩ | ⟨rfl, rfl⟩ | ⟨rfl, rfl⟩ | ⟨rfl, rfl⟩
  · exact connectionFunc_keepsMaps
  · exact rfl
  · exact connectLengthFunc_keepsMaps
  · exact rangeFunc_keepsMaps
  · exact rfl
  · exact acceptHandler_keepsMaps _
  · exact acceptHandler_keepsMaps _
  · exact acceptHandler_keepsMaps _
  · exact acceptHandler_keepsMaps _
  · exact cookieFunc_keepsMaps
  · exact ifMatchFunc_keepsMaps

theorem parseHeader_keepsMaps : KeepsMaps h (parseHeader env h base t) := by
  unfold parseHeader
  split_ifs
  · exact rfl
  · exact rfl
  · cases strchr t 58 with
    | none => trivial
    | some i =>
      refine poke_weightMaps.bind fun g hg => ?_
      cases hf : (parseHeaderFuncMap env).lookup (t.take i) with
      | none => exact hg
      | some f => exact (handler_keepsMaps hf).of_eq hg

theorem parseContent_keepsMaps : KeepsMaps h (h.parseContent base) := by
  unfold parseContent
  dsimp only
  split_ifs
  · trivial
  · exact poke_weightMaps.bind fun g hg => hg
  · exact rfl

theorem doRequest_keepsMaps : KeepsMaps h (h.doRequest env) := by
  unfold doRequest
  split_ifs
  · exact rfl
  · cases h.deref h.mUrl with
    | error e => trivial
    | ok url =>
      cases hn : h.fileName url with
      | error e => simp only [bind, Except.bind, hn]; trivial
      | ok name =>
        simp only [bind, Except.bind, hn]
        cases cstr name.cells 0 with
        | none => trivial
        | some path =>
          exact (congrArg weightMaps
            (statFile_besideFile env { h with mFilename := name } path) :)

theorem reply_keepsMaps {pkgHeader : List UInt8} {code : HttpCode} :
    Post (reply env pkgHeader code h) (fun _ => True) fun r =>
      r.obj.weightMaps = h.weightMaps := by
  refine ((processWrite_post code).weaken fun _ _ => trivial).bind fun g hg => ?_
  cases g.writeLen with
  | error e => trivial
  | ok n => exact (congrArg weightMaps hg.1 :)

/-- **No call changes the maps.** -/
theorem call_weightMaps {c : Call} {o : List HttpCode} (hc : call h c = some (g, o)) :
    g.weightMaps = h.weightMaps := by
  have of_post : ∀ {β : Type} {r : Except Fault β} (obj : β → HttpServer)
      (codes : β → List HttpCode),
      Post r (fun _ => True) (fun b => (obj b).weightMaps = h.weightMaps) →
      (r.toOption.map fun b => (obj b, codes b)) = some (g, o) → g.weightMaps = h.weightMaps := by
    intro β r obj codes hr hc
    cases r with
    | error e => cases hc
    | ok b =>
      cases hc
      exact hr
  cases c with
  | receive body => cases hc; rfl
  | startNext => cases hc; rfl
  | poke i => exact of_post id (fun _ => []) poke_weightMaps hc
  | parseLine => exact of_post Prod.snd (fun _ => []) parseLine_keepsMaps hc
  | parseRequest base t => exact of_post Prod.snd (fun q => [q.1]) parseRequest_keepsMaps hc
  | parseHeader env base t => exact of_post Prod.snd (fun q => [q.1]) parseHeader_keepsMaps hc
  | parseContent base => exact of_post Prod.snd (fun q => [q.1]) parseContent_keepsMaps hc
  | doRequest env => exact of_post Prod.snd (fun q => [q.1]) doRequest_keepsMaps hc
  | reply env pkgHeader code => exact of_post Reply.obj (fun r => [r.code]) reply_keepsMaps hc

end HttpServer

theorem AcceptHeader.not_records {h : HttpServer} (hm : h.weightMaps = [[], [], [], []])
    (f : AcceptHeader) (base : ℕ) (v : AcceptValue) : ¬ f.Records h base v := by
  rintro ⟨code, g, hr, hlisted⟩
  have hg : g.weightMaps = [[], [], [], []] := by
    rw [← hm]
    cases f <;> exact (HttpServer.acceptHandler_keepsMaps _).of_ok hr
  have hempty : f.member g = [] := by
    simp only [HttpServer.weightMaps, List.cons.injEq, and_true] at hg
    cases f
    · exact hg.1
    · exact hg.2.1
    · exact hg.2.2.1
    · exact hg.2.2.2
  obtain ⟨w, -, hw⟩ := hlisted (v.last, v.weight.getD (ascii "1"))
    (List.mem_append_right _ (List.mem_singleton_self _))
  rw [hempty] at hw
  cases hw

/-- **Weights are never recorded**: whatever has been called on an object since its construction,
after no handler of an `Accept` header its member lists the items of the value. -/
theorem weights_never_recorded (u : Uninit) (calls : List HttpServer.Call) :
    Run.Always HttpServer.call (fun h => ∀ f base v, ¬ AcceptHeader.Records f h base v)
      (HttpServer.new u) calls := by
  have hempty : Run.Always HttpServer.call (fun h => h.weightMaps = [[], [], [], []])
      (HttpServer.new u) calls :=
    Run.always_of_guarded (fun h c g o hh _ hc => (HttpServer.call_weightMaps hc).trans hh) rfl
      (Run.guarded_true _ calls)
  exact hempty.imp fun h hm f base v => f.not_records hm base v

/-- `text/html;q=0.5` is not recorded. -/
theorem not_records_html : ¬ ∀ (f : AcceptHeader) (u : Uninit) (v : AcceptValue), v.WellFormed →
    f.Records ((HttpServer.new u).receive (v.text ++ [0])) 0 v := by
  intro hall
  exact AcceptHeader.not_records rfl _ _ _
    (hall .accept .zero ⟨[], ascii "text/html", some (ascii "0.5")⟩ (by decide +kernel))

end ServerNginx
