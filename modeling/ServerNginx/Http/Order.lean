import ServerNginx.Http.Alike
import ServerNginx.Http.HeadGet
import ServerNginx.Http.Content
import ServerNginx.Http.History
import Mathlib.Data.List.Nodup

set_option autoImplicit false

/-!
# The order of the header lines

A header line sets members of its own, so that lines of different names may change places. The
response depends on the order in no other way: a header pushes one callback at most, and the one
that `do_request` pushes is the last.

* `Asked.afterLines_perm`: what the lines ask for, in any order;
* `Request.reading`: a request without content is read as one;
* **`unordered_iff`**: two fresh objects answer any two orders with the same bytes, unless they are
  asked with HEAD for a file that does not exist. `HEAD_func` shows the time in `m_stat` then, which
  neither the constructor nor `stat` has set.
-/

namespace ServerNginx

open CString CNumber

variable {env : Env} {l l₀ url : List UInt8} {ls ls' : List (List UInt8)} {m : Method}

/-! ## Header lines commute -/

/-- What a header line sets. -/
inductive Setting
  | length (f : ℤ → ℤ)
  | range (f g : ℤ → ℤ) (cs : List Callback)
  | since (n : ℤ)
  | cookie
  | nothing

namespace Setting

/-- The header that sets it. -/
def header : Setting → Option (List UInt8)
  | length _ => some (ascii "Connect-Length")
  | range _ _ _ => some (ascii "Range")
  | since _ => some (ascii "If-Modified-Since")
  | cookie => some (ascii "Cookie")
  | nothing => none

/-- The members behind it. -/
def set : Setting → Asked → Asked
  | length f, a => { a with contentLength := f a.contentLength }
  | range f g cs, a =>
    { a with
      rangeStart := f a.rangeStart
      rangeEnd := g a.rangeEnd
      callbacks := a.callbacks ++ cs }
  | since n, a => { a with ifModifiedSince := n }
  | cookie, a => { a with cookie := true }
  | nothing, a => a

/-- **Settings of different headers** may change places. -/
theorem set_comm {s s' : Setting} (hne : s.header = none ∨ s'.header ≠ s.header) (a : Asked) :
    s'.set (s.set a) = s.set (s'.set a) := by
  cases s with
  | nothing => rfl
  | length f =>
    cases s' with
    | length g => simp [header] at hne
    | _ => rfl
  | range f g cs =>
    cases s' with
    | range f' g' cs' => simp [header] at hne
    | _ => rfl
  | since n =>
    cases s' with
    | since n' => simp [header] at hne
    | _ => rfl
  | cookie =>
    cases s' with
    | cookie => simp [header] at hne
    | _ => rfl

theorem set_stat (s : Setting) (a : Asked) (st : Stat) :
    s.set { a with stat := st } = { s.set a with stat := st } := by
  cases s <;> rfl

end Setting

namespace Asked

theorem length_setting (v : List UInt8) :
    ∃ f, ∀ a : Asked, a.length v = (Setting.length f).set a := by
  unfold Asked.length
  cases stoi v with
  | ok n => exact ⟨fun _ => n, fun a => rfl⟩
  | error e => exact ⟨id, fun a => rfl⟩

theorem range_setting (v : List UInt8) :
    ∃ f g cs, ∀ a : Asked, a.range v = (Setting.range f g cs).set a := by
  have keep : ∀ a : Asked, { a with callbacks := a.callbacks ++ [.range] } =
      (Setting.range id id [.range]).set a := fun a => rfl
  unfold Asked.range
  cases strchr v 45 with
  | none => exact ⟨_, _, _, keep⟩
  | some i =>
    cases hs : stoi (v.take i) with
    | error e => exact ⟨id, id, [.range], fun a => by simp only [hs, keep]⟩
    | ok start =>
      cases he : stoi (v.drop (i + 1)) with
      | error e => exact ⟨id, id, [.range], fun a => by simp only [hs, he, keep]⟩
      | ok stop =>
        exact ⟨fun _ => start, fun _ => stop, [.range], fun a => by simp only [hs, he]; rfl⟩

/-- **A header** sets what its name says, or nothing. -/
theorem value_setting (env : Env) (name v : List UInt8) : ∃ s : Setting,
    (s.header = none ∨ s.header = some name) ∧ ∀ a : Asked, a.value env name v = s.set a := by
  unfold Asked.value
  dsimp only
  split_ifs with hlength hrange hbytes hsince hcookie
  · obtain ⟨f, hf⟩ := length_setting (v.drop (strspn v blank))
    exact ⟨.length f, Or.inr (congrArg some hlength.symm), hf⟩
  · obtain ⟨f, g, cs, hf⟩ := range_setting ((v.drop (strspn v blank)).drop 6)
    exact ⟨.range f g cs, Or.inr (congrArg some hrange.symm), hf⟩
  · exact ⟨.nothing, Or.inl rfl, fun a => rfl⟩
  · exact ⟨.since _, Or.inr (congrArg some hsince.symm), fun a => rfl⟩
  · exact ⟨.cookie, Or.inr (congrArg some hcookie.symm), fun a => rfl⟩
  · exact ⟨.nothing, Or.inl rfl, fun a => rfl⟩

end Asked

/-- The name of a header line. -/
def headerName (l : List UInt8) : Option (List UInt8) := (headerParts (lineText l)).map Prod.fst

namespace Asked

theorem line_setting (env : Env) (l : List UInt8) : ∃ s : Setting,
    (s.header = none ∨ s.header = headerName l) ∧
      ∀ a : Asked, a.line env (lineText l) = s.set a := by
  unfold Asked.line headerName
  cases headerParts (lineText l) with
  | none => exact ⟨.nothing, Or.inl rfl, fun a => rfl⟩
  | some p => exact value_setting env p.1 p.2

/-- **Header lines of different names** may change places. -/
theorem line_comm {l l' : List UInt8} (hne : headerName l' ≠ headerName l) (a : Asked) :
    (a.line env (lineText l)).line env (lineText l') =
      (a.line env (lineText l')).line env (lineText l) := by
  obtain ⟨s, hs, heq⟩ := line_setting env l
  obtain ⟨s', hs', heq'⟩ := line_setting env l'
  rw [heq, heq', heq, heq']
  rcases hs with hs | hs
  · exact Setting.set_comm (Or.inl hs) a
  rcases hs' with hs' | hs'
  · exact (Setting.set_comm (Or.inl hs') a).symm
  · exact Setting.set_comm (Or.inr (by rw [hs, hs']; exact hne)) a

/-- The members behind accepted header lines. -/
def afterLines (env : Env) (a : Asked) (ls : List (List UInt8)) : Asked :=
  ls.foldl (fun a l => a.line env (lineText l)) a

/-- **All orders** of lines with different names leave the same behind. -/
theorem afterLines_perm (hnames : (ls.map headerName).Nodup) (hp : ls.Perm ls') (a : Asked) :
    a.afterLines env ls = a.afterLines env ls' := by
  refine hp.foldl_eq' (fun l hl l' hl' a => ?_) a
  by_cases heq : l = l'
  · rw [heq]
  · apply line_comm
    intro hname
    exact heq (List.inj_on_of_nodup_map hnames hl hl' hname.symm)

theorem afterLines_stat (st : Stat) (ls : List (List UInt8)) : ∀ a : Asked,
    ({ a with stat := st } : Asked).afterLines env ls =
      { a.afterLines env ls with stat := st } := by
  induction ls with
  | nil => exact fun a => rfl
  | cons l ls ih =>
    intro a
    obtain ⟨s, -, heq⟩ := line_setting env l
    show (({ a with stat := st } : Asked).line env (lineText l)).afterLines env ls =
      { (a.line env (lineText l)).afterLines env ls with stat := st }
    rw [heq, heq, Setting.set_stat, ih]

end Asked

/-! ## Accepted lines -/

/-- `parse_header` on a fresh object whose packet holds the C string `t` alone. -/
def headerAlone (env : Env) (t : List UInt8) : Except Fault (HttpCode × HttpServer) :=
  HttpServer.parseHeader env ((HttpServer.new .zero).receive (t ++ [0])) 0 t

/-- **The handler of the line accepts it**: it returns `NO_REQUEST`, and no positive length of
content is set. -/
def Accepted (env : Env) (l : List UInt8) : Prop :=
  lineText l ≠ [] ∧ ∃ g, headerAlone env (lineText l) = .ok (.noRequest, g) ∧ g.mContentLength ≤ 0

theorem accepted_iff : Accepted env l ↔ lineText l ≠ [] ∧ LineOk (lineText l) ∧
    ¬ LineRejected (lineText l) ∧ lengthAfter (lineText l) 0 ≤ 0 := by
  unfold Accepted headerAlone
  refine and_congr_right fun hne => ?_
  have hh := @HttpServer.parseHeader_handled env ((HttpServer.new .zero).receive
    (lineText l ++ [0])) 0 (lineText l) hne (by simp [HttpServer.receive])
  constructor
  · rintro ⟨g, hg, hlen⟩
    by_cases hok : LineOk (lineText l)
    · obtain ⟨code, k, hk, -, hcl, hres⟩ := hh.result hok
      cases hk.symm.trans hg
      rcases hres with ⟨hcode, -⟩ | ⟨-, hrej⟩
      · cases hcode
      · exact ⟨hok, hrej, hcl ▸ hlen⟩
    · obtain ⟨e, he, -⟩ := hh.fault hok
      cases he.symm.trans hg
  · rintro ⟨hok, hrej, hlen⟩
    obtain ⟨code, k, hk, -, hcl, ⟨-, hrej'⟩ | ⟨rfl, -⟩⟩ := hh.result hok
    · exact absurd hrej' hrej
    · exact ⟨k, hk, hcl ▸ hlen⟩

theorem Accepted.headerLine (ha : Accepted env l) (hl : Plain l) : HeaderLine l := by
  obtain ⟨hne, hok, hrej, -⟩ := accepted_iff.mp ha
  exact ⟨hl, hne, hok, hrej⟩

theorem Accepted.length_le (ha : Accepted env l) {n : ℤ} (hn : n ≤ 0) :
    lengthAfter (lineText l) n ≤ 0 := by
  have hle := (accepted_iff.mp ha).2.2.2
  unfold lengthAfter valueLength at hle ⊢
  split at hle
  · exact hn
  · split at hle
    · split at hle
      · exact hle
      · exact hn
    · exact hn

theorem declared_le (hls : ∀ l ∈ ls, Accepted env l) : declared ls ≤ 0 := by
  have hfold : ∀ n : ℤ, n ≤ 0 → ls.foldl (fun n l => lengthAfter (lineText l) n) n ≤ 0 := by
    induction ls with
    | nil => exact fun n hn => hn
    | cons l ls ih =>
      obtain ⟨hl, hls⟩ := List.forall_mem_cons.mp hls
      exact fun n hn => ih hls _ (hl.length_le hn)
  exact hfold 0 le_rfl

/-! ## The body of a request -/

/-- A request line, header lines and the empty line. -/
def requestBody (l₀ : List UInt8) (ls : List (List UInt8)) : List UInt8 := ended (l₀ :: ls ++ [[]])

/-- A request without content: a valid request line, and accepted header lines of different
names. -/
structure Request (env : Env) (l₀ : List UInt8) (ls : List (List UInt8)) (m : Method)
    (url : List UInt8) : Prop where
  plain : Plain l₀
  line : requestLine .get (lineText l₀) = some (m, url)
  headers : ∀ l ∈ ls, Plain l ∧ Accepted env l
  names : (ls.map headerName).Nodup
  room : (requestBody l₀ ls).length < 2 ^ 16

theorem Request.perm (hr : Request env l₀ ls m url) (hp : ls.Perm ls') :
    Request env l₀ ls' m url where
  plain := hr.plain
  line := hr.line
  headers := fun l hl => hr.headers l (hp.mem_iff.mpr hl)
  names := (hp.map headerName).nodup_iff.mp hr.names
  room := by
    have hlen : (requestBody l₀ ls').length = (requestBody l₀ ls).length := by
      unfold requestBody ended
      exact (((hp.cons l₀).append_right [[]]).flatMap_right _).length_eq.symm
    rw [hlen]
    exact hr.room

theorem Request.lines (hr : Request env l₀ ls m url) :
    lines (requestBody l₀ ls) = l₀ :: (ls ++ [[]]) := by
  have hall : ∀ l ∈ l₀ :: ls ++ [[]], Plain l := by
    intro l hl
    rw [List.cons_append, List.mem_cons, List.mem_append, List.mem_singleton] at hl
    rcases hl with rfl | hl | rfl
    · exact hr.plain
    · exact (hr.headers l hl).1
    · exact plain_nil
  obtain ⟨k, hk⟩ := lines_ended [] hall
  have hnil : linesUpTo k [] = [] := by cases k <;> rfl
  rw [hnil, List.append_nil, List.append_nil] at hk
  exact hk

theorem Request.headerLine (hr : Request env l₀ ls m url) : ∀ l ∈ ls, HeaderLine l := fun l hl =>
  (hr.headers l hl).2.headerLine (hr.headers l hl).1

/-- **A request without content** is read as one. -/
theorem Request.reading (hr : Request env l₀ ls m url) :
    reading (requestBody l₀ ls) = .request m url := by
  have hdeclared : ¬ 0 < declared ls := not_lt.mpr (declared_le fun l hl => (hr.headers l hl).2)
  rw [ServerNginx.reading, hr.lines]
  dsimp only
  rw [hr.line]
  dsimp only
  rw [readHeaders_append hr.headerLine, readHeaders, if_pos (by rfl)]
  exact if_neg hdeclared

theorem headers_append (hls : ∀ l ∈ ls, HeaderLine l) : ∀ a : Asked,
    a.headers env (ls ++ [[]]) = a.afterLines env ls := by
  induction ls with
  | nil => exact fun a => if_pos (Or.inl rfl)
  | cons l ls ih =>
    intro a
    obtain ⟨⟨-, hne, hok, hrej⟩, hls⟩ := List.forall_mem_cons.mp hls
    rw [List.cons_append, Asked.headers, if_neg (not_or.mpr ⟨hne, not_not_intro hok⟩), if_neg hrej,
      ih hls]
    rfl

theorem Request.asked (hr : Request env l₀ ls m url) (u : Uninit) :
    (HttpServer.new u).asked.body env (requestBody l₀ ls) =
      ((HttpServer.new u).asked.request (lineText l₀)).afterLines env ls := by
  have hline : requestLine (HttpServer.new u).asked.method (lineText l₀) = some (m, url) := hr.line
  rw [Asked.body, hr.lines]
  dsimp only
  rw [hline]
  exact headers_append hr.headerLine _

/-- **Another order of the lines** asks for the same, on an object with another status. -/
theorem Request.asked_perm (hr : Request env l₀ ls m url) (hp : ls.Perm ls') (u u' : Uninit) :
    (HttpServer.new u').asked.body env (requestBody l₀ ls') =
      { (HttpServer.new u).asked.body env (requestBody l₀ ls) with stat := u'.mStat } := by
  rw [hr.asked, (hr.perm hp).asked, Asked.afterLines_perm hr.names hp]
  exact Asked.afterLines_stat u'.mStat ls' ((HttpServer.new u).asked.request (lineText l₀))

namespace HttpServer

variable {h h' g g' : HttpServer} {a : Asked} {code : HttpCode} {hdr body : List UInt8}
  {u u' : Uninit}

/-! ## The responses -/

theorem response_congr {r r' : Reply} (hcode : r.code = r'.code)
    (hcount : r.obj.mIovCount = r'.obj.mIovCount)
    (hiov : (r.obj.mIov.take r.obj.mIovCount).map r.obj.segment =
      (r'.obj.mIov.take r'.obj.mIovCount).map r'.obj.segment)
    (hlen : r.pkgLen = r'.pkgLen) : r.response = r'.response := by
  rw [Reply.response, Reply.response, hcode, hiov, hcount, hlen]

theorem Shown.reply (hs : Both Shown (h.processWrite env code) (h'.processWrite env code)) :
    Both (fun r r' => r.response = r'.response) (reply env hdr code h) (reply env hdr code h') := by
  unfold HttpServer.reply
  refine hs.bind fun g g' hg => ?_
  have hlen : g'.writeLen = g.writeLen := by
    unfold writeLen
    rw [hg.text]
  have hseg : g'.segment = g.segment := by
    funext v
    unfold segment
    rw [hg.text]
  rw [hlen, hg.length]
  cases g.writeLen with
  | error e => exact Both.refl e
  | ok len =>
    have hiov : ∀ v, ((g'.mIov.set 0 v).take g'.mIovCount).map g'.segment =
        ((g.mIov.set 0 v).take g.mIovCount).map g.segment := by
      intro v
      rw [hg.iov, hseg]
    exact response_congr rfl hg.count.symm (hiov _).symm rfl

/-- **Two orders of the header lines**, on two fresh objects. -/
theorem business_perm (hr : Request env l₀ ls m url) (hp : ls.Perm ls')
    (htime : m = .head → url.length < 190 → env.stat (localFileAddr ++ url) = none →
      env.strtime u'.mStat.stMtime = env.strtime u.mStat.stMtime) :
    Both (fun r r' => r.response = r'.response) ((new u).business env hdr (requestBody l₀ ls))
      ((new u').business env hdr (requestBody l₀ ls')) := by
  have hd := processRead_ends env u hr.room
  have hd' := processRead_ends env u' (hr.perm hp).room
  rw [hr.reading] at hd
  rw [(hr.perm hp).reading] at hd'
  obtain ⟨g, hg, hm, hu, ho, ha⟩ := hd
  obtain ⟨g', hg', hm', hu', ho', ha'⟩ := hd'
  have hw := Unwritten.of_outer ho
  have hw' := Unwritten.of_outer ho'
  rw [hr.asked_perm hp u u', ← ha] at ha'
  have hk : Alike g.asked { g.asked with stat := u'.mStat } g g' := by
    refine ⟨rfl, ha', hw'.buffer.trans hw.buffer.symm, ?_, ?_, ?_, hw'.count, hw.count⟩
    · exact (congrArg mFilePtr ho' :).trans (congrArg mFilePtr ho :).symm
    · rw [hw.iov]
      rfl
    · rw [hw'.iov]
      rfl
  have hstat : g.asked.stat = u.mStat := (congrArg mStat ho :)
  unfold business
  rw [hg, hg']
  refine (doRequest_found hk ?_ ?_ ?_ ?_ ?_ hu hu' fun hhead hfit hnone => ?_).bind ?_
  · exact (congrArg pkt ho' :).trans (congrArg pkt ho :).symm
  · exact (congrArg mIfUnmodifiedSinceTime ho :)
  · exact (congrArg mIfUnmodifiedSinceTime ho' :)
  · exact (congrArg mFilename ho :)
  · exact (congrArg mFilename ho' :)
  · rw [hstat]
    exact htime (hm.symm.trans hhead) hfit hnone
  · rintro ⟨code, h⟩ ⟨code', h'⟩ ⟨hcode, b, b', hk, hb⟩
    obtain rfl : code' = code := hcode
    exact Shown.reply (processWrite_alike hk hb)

variable (hdr) in
/-- **The response to HEAD** shows the text of the head. -/
theorem head_response (hroom : body.length < 2 ^ 16) (hm : a.method = .head)
    (ho : outcome env u body = some (code, a)) :
    ∃ r, responseTo (new u) ⟨env, hdr, body⟩ = .ok r ∧
      r.segments[1]? = some (some (headText 200 (ascii "OK") (a.headLines env))) := by
  obtain ⟨r, hr⟩ := exists_reply hdr hroom ho fun hget => by cases hget.symm.trans hm
  obtain ⟨code', h, g, len, bytes, hh, hg, -, hobj⟩ := business_handed hroom hr
  cases ho.symm.trans hh.outcome
  rw [processWrite, show h.mMethod = .head from hm] at hg
  obtain rfl := (headFunc_puts env h).of_ok hg
  obtain ⟨v₀, v₁, v₂, hiov⟩ := List.length_eq_three.mp hh.iov
  refine ⟨r.response, by rw [responseTo, hr]; rfl, ?_⟩
  rw [Reply.response, hobj]
  simp [iovHead, put, hiov, hh.buffer, segment]

theorem headLines_time {s : Stat} (h : headText 200 (ascii "OK") (a.headLines env) =
    headText 200 (ascii "OK") (({ a with stat := s } : Asked).headLines env)) :
    env.strtime a.stat.stMtime = env.strtime s.stMtime := by
  simpa [headText, Asked.headLines, modifiedLine] using h

/-- Where HEAD is asked for a file that does not exist, the responses show the times of the two
objects. -/
theorem time_of_same (hr : Request env l₀ ls .head url) (hp : ls.Perm ls')
    (hfit : url.length < 190) (hnone : env.stat (localFileAddr ++ url) = none)
    (hsame : responseTo (new u) ⟨env, hdr, requestBody l₀ ls⟩ =
      responseTo (new u') ⟨env, hdr, requestBody l₀ ls'⟩) :
    env.strtime u'.mStat.stMtime = env.strtime u.mStat.stMtime := by
  have hout : ∀ {ks : List (List UInt8)} (v : Uninit), Request env l₀ ks .head url →
      outcome env v (requestBody l₀ ks) =
        some (.noResource, (new v).asked.body env (requestBody l₀ ks)) := by
    intro ks v hk
    unfold outcome
    dsimp only
    rw [hk.reading]
    dsimp only
    rw [if_neg (by decide), if_pos hfit, Asked.file, hnone]
  have hmethod : ∀ {ks : List (List UInt8)} (v : Uninit), Request env l₀ ks .head url →
      ((new v).asked.body env (requestBody l₀ ks)).method = .head := fun v hk =>
    Asked.body_method rfl hk.reading
  obtain ⟨r, hr₁, htext⟩ := head_response hdr hr.room (hmethod u hr) (hout u hr)
  obtain ⟨r', hr₂, htext'⟩ := head_response hdr (hr.perm hp).room
    (hmethod u' (hr.perm hp)) (hout u' (hr.perm hp))
  rw [hr₁, hr₂] at hsame
  cases hsame
  rw [htext, hr.asked_perm hp u u'] at htext'
  have htimes := headLines_time (Option.some.inj (Option.some.inj htext'))
  have hstat := congrArg Asked.stat (hr.asked_perm (List.Perm.refl ls) u u)
  rw [← htimes, hstat]

/-- **The order of the header lines does not matter** exactly where the response shows no time that
the constructor has left as it found it. -/
theorem unordered_iff (env : Env) (u u' : Uninit) (hdr l₀ url : List UInt8)
    (ls : List (List UInt8)) (m : Method) (hr : Request env l₀ ls m url) :
    (∀ ls', ls.Perm ls' → responseTo (new u) ⟨env, hdr, requestBody l₀ ls⟩ =
      responseTo (new u') ⟨env, hdr, requestBody l₀ ls'⟩) ↔
    (m = .head → url.length < 190 → env.stat (localFileAddr ++ url) = none →
      env.strtime u'.mStat.stMtime = env.strtime u.mStat.stMtime) := by
  constructor
  · rintro hall rfl hfit hnone
    have hp := List.Perm.refl ls
    exact time_of_same hr hp hfit hnone (hall ls hp)
  · intro htime ls' hp
    exact (business_perm hr hp htime).map_eq

theorem request_head (env : Env) : Request env (ascii "HEAD http://h/x HTTP/1.1")
    [ascii "Host: h", ascii "Cookie: a=b"] .head (ascii "/x") where
  plain := by decide
  line := by decide +kernel
  headers := by
    simp only [accepted_iff]
    decide +kernel
  names := by decide +kernel
  room := by decide +kernel

/-- An object in memory that held another time. -/
def otherTime : Uninit := { Uninit.zero with mStat := ⟨0, 1, false, false⟩ }

/-- The two lines in the other order, where the file exists. -/
theorem unordered_tenBytes :
    responseTo (new .zero) ⟨.tenBytes, List.replicate 8 0,
      requestBody (ascii "HEAD http://h/x HTTP/1.1") [ascii "Host: h", ascii "Cookie: a=b"]⟩ =
    responseTo (new otherTime) ⟨.tenBytes, List.replicate 8 0,
      requestBody (ascii "HEAD http://h/x HTTP/1.1") [ascii "Cookie: a=b", ascii "Host: h"]⟩ :=
  (unordered_iff .tenBytes .zero otherTime _ _ _ _ _ (request_head .tenBytes)).mpr
    (fun _ _ hnone => by cases hnone) _ (List.Perm.swap _ _ _)

/-- A world without files, with the texts of two times. -/
def twoTimes : Env :=
  { Env.noFiles with
    strtime := fun t => if t = 0 then ascii "Thu, 01 Jan 1970 00:00:00 GMT"
      else ascii "Thu, 01 Jan 1970 00:00:01 GMT"
    strtime_length := fun t => by
      split_ifs
      · decide
      · decide
    strtime_nul := fun t => by
      split_ifs
      · decide
      · decide }

/-- The same, where there is no file. -/
theorem not_unordered : ¬ ∀ (env : Env) (u u' : Uninit) (hdr l₀ url : List UInt8)
    (ls : List (List UInt8)) (m : Method), Request env l₀ ls m url → ∀ ls', ls.Perm ls' →
      responseTo (new u) ⟨env, hdr, requestBody l₀ ls⟩ =
        responseTo (new u') ⟨env, hdr, requestBody l₀ ls'⟩ := by
  intro hall
  have hp : [ascii "Host: h", ascii "Cookie: a=b"].Perm [ascii "Cookie: a=b", ascii "Host: h"] :=
    List.Perm.swap _ _ _
  have hr := request_head twoTimes
  have hsame := hall twoTimes .zero otherTime (List.replicate 8 0) _ _ _ _ hr _ hp
  have htime := time_of_same hr hp (by decide) rfl hsame
  exact absurd htime (by decide)

end HttpServer

end ServerNginx
