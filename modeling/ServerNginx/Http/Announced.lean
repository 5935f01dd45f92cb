import ServerNginx.Http.Fits

set_option autoImplicit false

/-!
# The length a response announces

`Business` computes `pkgLen`, which it also stores in `isendlen`, from `strlen` and
`m_content_length`; the method functions fill in the segments that are sent.

* `Announces r`: the two agree, and neither number has been cut short;
* **`announces_iff`**: on a fresh object they do exactly where the request is `Sized`.
-/

namespace ServerNginx

open CString CNumber

namespace Asked

variable (env : Env) (a : Asked)

/-- The length of the content, whether it fits an `int` or not. -/
def trueLength : HttpCode → ℤ
  | .fileRequest => if a.method = .options then a.contentLength else a.stat.stSize
  | .partialContent => a.rangeEnd - a.rangeStart + 1
  | _ => a.contentLength

/-- The head, `n` bytes of content and the packet header make a length of 16 bits. -/
def Measured (head : ℕ) (n : ℤ) : Prop := 0 ≤ n ∧ head + n + 8 < 2 ^ 16

instance (head : ℕ) (n : ℤ) : Decidable (Measured head n) := by
  unfold Measured
  infer_instance

/-- A GET that sends a file fits a packet; a POST, which sends nothing at all, has a content length
that cancels the packet header; and no other response has a content length. -/
def Sized (code : HttpCode) : Prop :=
  match a.method, code with
  | .get, .fileRequest => Measured (a.okBytes env) a.stat.stSize
  | .get, .partialContent => Measured (a.partialBytes env) (a.rangeEnd - a.rangeStart + 1)
  | .post, code => a.trueLength code = -8
  | _, code => a.trueLength code = 0

instance (code : HttpCode) : Decidable (a.Sized env code) := by
  unfold Sized
  split <;> infer_instance

end Asked

namespace HttpServer

variable {env : Env} {h g : HttpServer} {a b : Asked} {v : List Iovec} {n count rest : ℕ}
  {code : HttpCode} {hdr : List UInt8} {r : Reply}

/-- `pkgLen` has not been truncated, it is the length of the segments, and `m_content_length` has
not been truncated either. -/
structure Announces (r : Reply) : Prop where
  pkgLen : ∃ len, r.obj.writeLen = .ok len ∧ (r.pkgLen : ℤ) = len + r.obj.mContentLength + 8
  total : r.pkgLen = ((r.obj.mIov.take r.obj.mIovCount).map Iovec.iovLen).sum
  content : r.obj.mContentLength = r.obj.asked.trueLength r.code

theorem reply_eq_ok {env : Env} (hr : reply env hdr code h = .ok r) :
    ∃ g len, h.processWrite env code = .ok g ∧ g.writeLen = .ok len ∧ r.code = code ∧
      r.pkgLen = ((len + g.mContentLength + 8) % 2 ^ 16).toNat ∧
      ∃ bytes, r.obj = { g with mIov := g.mIov.set 0 ⟨.pkgHeader bytes, 8⟩ } := by
  unfold reply at hr
  cases hg : h.processWrite env code with
  | error e =>
    rw [hg] at hr
    cases hr
  | ok g =>
    rw [hg] at hr
    cases hl : g.writeLen with
    | error e =>
      simp only [bind, Except.bind, hl] at hr
      cases hr
    | ok len =>
      simp only [bind, Except.bind, hl] at hr
      cases hr
      exact ⟨g, len, rfl, hl, rfl, rfl, _, rfl⟩

theorem announces_iff_of_laid {len : ℕ} (hl : Laid b count rest g) (hc : 1 ≤ count)
    (hlen : g.writeLen = .ok len) (hbuf : g.mWriteBuffer.length = len) (hcode : r.code = code)
    (hpkg : r.pkgLen = ((len + g.mContentLength + 8) % 2 ^ 16).toNat)
    (hobj : ∃ bytes, r.obj = { g with mIov := g.mIov.set 0 ⟨.pkgHeader bytes, 8⟩ }) :
    Announces r ↔ b.contentLength = rest ∧ len + b.contentLength + 8 < 2 ^ 16 ∧
      b.contentLength = b.trueLength code := by
  obtain ⟨bytes, hobj⟩ := hobj
  have hcl : g.mContentLength = b.contentLength := congrArg Asked.contentLength hl.asked
  have hasked : r.obj.asked = b := by rw [hobj]; exact hl.asked
  have hrcl : r.obj.mContentLength = b.contentLength := congrArg Asked.contentLength hasked
  have hrlen : r.obj.writeLen = .ok len := by rw [hobj]; exact hlen
  have htotal : ((r.obj.mIov.take r.obj.mIovCount).map Iovec.iovLen).sum = 8 + (len + rest) := by
    have hbehind := hl.behind
    obtain ⟨v₀, v₁, v₂, hv⟩ := List.length_eq_three.mp hl.iovLength
    obtain ⟨k, rfl⟩ := Nat.exists_eq_add_of_le' hc
    rw [hobj]
    dsimp only
    rw [hl.iovCount, hv, List.set_cons_zero, List.take_succ_cons, List.map_cons, List.sum_cons]
    rw [hv, List.take_succ_cons, List.drop_one, List.tail_cons] at hbehind
    rw [hbehind, hbuf]
  rw [hcl] at hpkg
  constructor
  · rintro ⟨⟨len', hlen', hp⟩, ht, hcont⟩
    rw [hrlen] at hlen'
    cases hlen'
    rw [hrcl] at hp hcont
    rw [htotal] at ht
    rw [hasked, hcode] at hcont
    exact ⟨by omega, by omega, hcont⟩
  · rintro ⟨hrest, hlt, hcont⟩
    refine ⟨⟨len, hrlen, ?_⟩, ?_, ?_⟩
    · rw [hrcl]
      omega
    · rw [htotal]
      omega
    · rw [hrcl, hasked, hcode]
      exact hcont

theorem Writes.of_ok {w : Except Fault HttpServer} {P : HttpServer → Prop} {len : ℕ}
    (hw : Writes h w n P) (hb : h.mWriteBuffer = []) (hg : w = .ok g)
    (hlen : g.writeLen = .ok len) : P g ∧ g.mWriteBuffer.length = len ∧ len = n := by
  have hzero : h.mWriteBuffer.length = 0 := by rw [hb]; rfl
  rcases Nat.lt_or_ge writeBufferSize n with hn | hn
  · rw [hw.full (by omega) (by omega)] at hg
    cases hg
  · obtain ⟨k, hk, hklen, hnul, hp⟩ := hw.fits (by omega)
    rw [hg] at hk
    cases hk
    unfold writeLen at hlen
    split_ifs at hlen with hfull
    cases hlen
    have hself : g.mWriteBuffer.takeWhile (· ≠ 0) = g.mWriteBuffer :=
      List.takeWhile_eq_self_iff.mpr fun c hc => decide_eq_true fun h0 =>
        hnul (by simp [hb]) (h0 ▸ hc)
    rw [hself]
    exact ⟨hp, rfl, by omega⟩

end HttpServer

namespace Asked

variable {env : Env} {a : Asked} {code : HttpCode}

theorem Consistent.contentLength (hc : a.Consistent code) :
    a.contentLength = int32 (a.trueLength code) := by
  have hsame : a.contentLength = int32 a.contentLength :=
    (int32_of_lt hc.1.length.1 hc.1.length.2).symm
  cases code with
  | fileRequest =>
    unfold trueLength
    dsimp only
    split_ifs with hm
    · exact hsame
    · exact hc.2.2 rfl hm
  | partialContent => exact (hc.2.1 rfl).2
  | _ => exact hsame

theorem Consistent.contentLength_eq (hc : a.Consistent code) {m : ℤ}
    (hm : a.trueLength code = m) (hlo : -2 ^ 31 ≤ m) (hhi : m < 2 ^ 31) : a.contentLength = m := by
  rw [hc.contentLength, hm, int32_of_lt hlo hhi]

theorem Consistent.empty_iff (hc : a.Consistent code) {n : ℕ} (hn : n ≤ 300) :
    (a.contentLength = (0 : ℕ) ∧ n + a.contentLength + 8 < 2 ^ 16 ∧
      a.contentLength = a.trueLength code) ↔ a.trueLength code = 0 := by
  constructor
  · rintro ⟨h0, -, htrue⟩
    rw [← htrue, h0]
    rfl
  · intro htrue
    have h0 := hc.contentLength_eq htrue (by decide) (by decide)
    rw [htrue, h0]
    exact ⟨rfl, by omega, rfl⟩

theorem Consistent.measured_iff (hc : a.Consistent code) {n : ℕ} :
    (a.contentLength = HttpServer.sizeT a.contentLength ∧ n + a.contentLength + 8 < 2 ^ 16 ∧
      a.contentLength = a.trueLength code) ↔ Measured n (a.trueLength code) := by
  unfold HttpServer.sizeT Measured
  constructor
  · rintro ⟨hsize, hlt, htrue⟩
    rw [← htrue]
    exact ⟨by omega, hlt⟩
  · rintro ⟨hnonneg, hlt⟩
    have hcl := hc.contentLength_eq rfl (by omega) (by omega)
    rw [hcl]
    exact ⟨by omega, hlt, rfl⟩

end Asked

namespace HttpServer

variable {env : Env} {h g : HttpServer} {a b : Asked} {v : List Iovec} {n count rest : ℕ}
  {code : HttpCode} {hdr : List UInt8} {r : Reply}

theorem Writes.announces (hw : Writes h (h.processWrite env code) n (Laid b count rest))
    (hc : 1 ≤ count) (hb : h.mWriteBuffer = []) (hr : reply env hdr code h = .ok r) :
    Announces r ↔ b.contentLength = rest ∧ n + b.contentLength + 8 < 2 ^ 16 ∧
      b.contentLength = b.trueLength code := by
  obtain ⟨g, len, hg, hlen, hcode, hpkg, hobj⟩ := reply_eq_ok hr
  obtain ⟨hl, hbuf, rfl⟩ := hw.of_ok hb hg hlen
  exact announces_iff_of_laid hl hc hlen hbuf hcode hpkg hobj

theorem Brief.announces (hw : Brief h (h.processWrite env code) a) (hc : a.Consistent code)
    (hb : h.mWriteBuffer = []) (hr : reply env hdr code h = .ok r) :
    Announces r ↔ a.trueLength code = 0 := by
  obtain ⟨n, hn, hw⟩ := hw
  rw [hw.announces (by decide) hb hr, hc.empty_iff hn]

theorem announces_post_iff (hm : h.mMethod = .post) (hc : a.Consistent code) (ha : h.asked = a)
    (hb : h.mWriteBuffer = []) (hcount : h.mIovCount = 0) (hr : reply env hdr code h = .ok r) :
    Announces r ↔ a.trueLength code = -8 := by
  obtain ⟨g, len, hg, hlen, hcode, hpkg, bytes, hobj⟩ := reply_eq_ok hr
  have hgh : g = h := by
    rw [processWrite, hm] at hg
    exact (Except.ok.inj hg).symm
  subst hgh
  have hzero : len = 0 := by
    rw [writeLen, if_pos (Or.inr (by rw [hb]; decide)), hb] at hlen
    exact (Except.ok.inj hlen).symm
  subst hzero
  have hasked : r.obj.asked = a := by rw [hobj]; exact ha
  have hcl : r.obj.mContentLength = a.contentLength := congrArg Asked.contentLength hasked
  have hgcl : g.mContentLength = a.contentLength := congrArg Asked.contentLength ha
  have hrlen : r.obj.writeLen = .ok 0 := by rw [hobj]; exact hlen
  have htotal : ((r.obj.mIov.take r.obj.mIovCount).map Iovec.iovLen).sum = 0 := by
    rw [hobj]
    dsimp only
    rw [hcount, List.take_zero]
    rfl
  rw [hgcl] at hpkg
  constructor
  · rintro ⟨⟨len, hl, hp⟩, ht, hcont⟩
    rw [hrlen] at hl
    cases hl
    rw [htotal] at ht
    rw [hcl] at hp hcont
    rw [hasked, hcode] at hcont
    omega
  · intro htrue
    have h8 := hc.contentLength_eq htrue (by decide) (by decide)
    refine ⟨⟨0, hrlen, ?_⟩, ?_, ?_⟩
    · rw [hcl]
      omega
    · rw [htotal]
      omega
    · rw [hcl, hasked, hcode, htrue, h8]

/-- **The response of an object with nothing written yet** announces its length where the request is
`Sized`. -/
theorem announces_iff_sized (hc : a.Consistent code) (hk : Kept a v h) (hv : v.length = 3)
    (hb : h.mWriteBuffer = []) (hcount : h.mIovCount = 0) (hr : reply env hdr code h = .ok r) :
    Announces r ↔ a.Sized env code := by
  have hm : h.mMethod = a.method := congrArg Asked.method hk.asked
  have hmethod := hc.1.method
  simp only [methods, List.mem_cons, List.not_mem_nil, or_false] at hmethod
  unfold Asked.Sized
  rcases hmethod with hget | hpost | hhead | hopt
  · have hpw : h.processWrite env code = h.getFunc env code := by
      rw [processWrite, hm, hget]
    by_cases hfile : code = .fileRequest
    · subst hfile
      have hw := getFunc_fileRequest env hk hv
      rw [← hpw] at hw
      obtain ⟨start, stop, hcalled⟩ := Asked.called_eq a.callbacks a
      have htrue : (a.called a.callbacks).trueLength .fileRequest = a.trueLength .fileRequest := by
        rw [hcalled]
        rfl
      have hsize : a.trueLength .fileRequest = a.stat.stSize := by
        rw [Asked.trueLength, hget, if_neg (by decide)]
      rw [hw.announces (by decide) hb hr, Asked.called_contentLength, htrue, hc.measured_iff,
        hsize, hget]
    · by_cases hpart : code = .partialContent
      · subst hpart
        have hw := getFunc_partialContent env hk hv (hc.2.1 rfl).1
        rw [← hpw] at hw
        have hlen : a.rangeLength = a.contentLength := (hc.2.1 rfl).2.symm
        rw [hlen] at hw
        rw [hw.announces (by decide) hb hr, hc.measured_iff, hget]
        rfl
      · have hw := getFunc_brief env hk hv hfile hpart
        rw [← hpw] at hw
        rw [hw.announces hc hb hr, hget]
        cases code <;> first | rfl | contradiction
  · rw [announces_post_iff (hm.trans hpost) hc hk.asked hb hcount hr, hpost]
  · have hw := headFunc_brief env hk hv hc.1.length
    have hpw : h.processWrite env code = h.headFunc env := by rw [processWrite, hm, hhead]
    rw [← hpw] at hw
    rw [hw.announces hc hb hr, hhead]
  · have hw := optionsFunc_brief env hk hv
    have hpw : h.processWrite env code = h.optionsFunc env := by rw [processWrite, hm, hopt]
    rw [← hpw] at hw
    rw [hw.announces hc hb hr, hopt]

/-- **`Business` announces what is sent** exactly where the request is `Sized`. -/
theorem announces_iff (env : Env) (u : Uninit) (hdr body : List UInt8) (r : Reply)
    (hroom : body.length + 8 ≤ 29000) (hr : (new u).business env hdr body = .ok r) :
    Announces r ↔ ∀ q ∈ outcome env u body, q.2.Sized env q.1 := by
  have hout := processRead_outcome env u (show body.length < 2 ^ 16 by omega)
  unfold business at hr
  cases ho : outcome env u body with
  | none =>
    rw [ho] at hout
    obtain ⟨e, he⟩ := hout
    rw [he] at hr
    cases hr
  | some q =>
    obtain ⟨code, a⟩ := q
    rw [ho] at hout
    obtain ⟨h, hread, ha, hw⟩ := hout
    rw [hread] at hr
    have hk : Kept a h.mIov h := ⟨ha, rfl⟩
    have hv : h.mIov.length = 3 := by rw [hw.iov]; rfl
    rw [announces_iff_sized (outcome_consistent ho) hk hv hw.buffer hw.count hr]
    constructor
    · intro hs q hq
      cases hq
      exact hs
    · exact fun hs => hs _ rfl

/-- A file of ten bytes. -/
theorem announces_tenBytes : ∃ r, (new .zero).business .tenBytes (List.replicate 8 0)
    (ascii "GET http://h/x HTTP/1.1\r\n\r\n") = .ok r ∧ Announces r :=
  have hsome : ((new .zero).business .tenBytes (List.replicate 8 0)
      (ascii "GET http://h/x HTTP/1.1\r\n\r\n")).toOption.isSome = true := by decide +kernel
  have hr := eq_ok_of_toOption (Option.some_get hsome).symm
  ⟨_, hr, (announces_iff .tenBytes .zero _ _ _ (by decide +kernel) hr).mpr (by decide +kernel)⟩

/-- The head of the file: its ten bytes are announced, but not sent. -/
theorem not_announces : ¬ ∀ (env : Env) (u : Uninit) (hdr body : List UInt8) (r : Reply),
    body.length + 8 ≤ 29000 → (new u).business env hdr body = .ok r → Announces r := by
  intro hall
  have hr := eq_ok_of_toOption (Option.some_get (by decide +kernel :
    ((new .zero).business .tenBytes (List.replicate 8 0)
      (ascii "HEAD http://h/x HTTP/1.1\r\n\r\n")).toOption.isSome = true)).symm
  exact absurd (hall _ _ _ _ _ (by decide +kernel) hr).total (by decide +kernel)

end HttpServer

end ServerNginx
