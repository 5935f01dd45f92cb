import ServerNginx.Http.Length

set_option autoImplicit false

/-!
# Response heads that fit the buffer

Each header line `Range` pushes a callback, and each callback writes a line. `HeadFits env u body`
says that the head of the response to `body` leaves the last byte of `m_write_buffer` alone.

**`headFits_iff`**: it does exactly where the response is not one in front of a file, or has 4095
bytes at most, counted from the request.
-/

namespace ServerNginx

open CString CNumber

namespace Asked

variable (env : Env) (a : Asked)

/-- The head in front of a file, or of a part of one, has 4095 bytes at most. -/
def HeadShort (code : HttpCode) : Prop :=
  a.method = .get → (code = .fileRequest → a.okBytes env ≤ 4095) ∧
    (code = .partialContent → a.partialBytes env ≤ 4095)

instance (code : HttpCode) : Decidable (a.HeadShort env code) := by
  unfold HeadShort
  infer_instance

end Asked

namespace HttpServer

variable {env : Env} {h g : HttpServer} {a : Asked} {v : List Iovec} {n : ℕ} {code : HttpCode}

/-- Nothing is written to the last byte of `m_write_buffer`, so that `strlen` finds the end. The
buffer only grows: its length at the end bounds what any `write_senddata` has reached. -/
def Fits (r : Except Fault HttpServer) : Prop :=
  ∃ g, r = .ok g ∧ g.mWriteBuffer.length ≤ writeBufferSize - 1 ∧
    g.writeLen = .ok g.mWriteBuffer.length

theorem writeLen_of_short (hnul : (0 : UInt8) ∉ g.mWriteBuffer)
    (hlt : g.mWriteBuffer.length < writeBufferSize) : g.writeLen = .ok g.mWriteBuffer.length := by
  rw [writeLen, if_pos (Or.inr hlt), List.takeWhile_eq_self_iff.mpr]
  intro c hc
  exact decide_eq_true fun h0 => hnul (h0 ▸ hc)

theorem Writes.fits_iff {r : Except Fault HttpServer} {P : HttpServer → Prop}
    (hr : Writes h r n P) (hb : h.mWriteBuffer = []) : Fits r ↔ n ≤ 4095 := by
  have hsize : writeBufferSize = 4096 := rfl
  have hlen : h.mWriteBuffer.length = 0 := by rw [hb]; rfl
  rcases Nat.lt_or_ge writeBufferSize n with hn | hn
  · rw [hr.full (by omega) (by omega)]
    exact iff_of_false (by rintro ⟨g, hg, -⟩; cases hg) (by omega)
  · obtain ⟨g, rfl, hg, hnul, -⟩ := hr.fits (by omega)
    constructor
    · rintro ⟨k, hk, hle, -⟩
      cases hk
      omega
    · intro hle
      exact ⟨g, rfl, by omega, writeLen_of_short (hnul (by simp [hb])) (by omega)⟩

theorem Brief.fits {r : Except Fault HttpServer} (hr : Brief h r a) (hb : h.mWriteBuffer = []) :
    Fits r := by
  obtain ⟨n, hn, hw⟩ := hr
  exact (hw.fits_iff hb).mpr (by omega)

variable (env) in
/-- **`process_write`** in an empty buffer. -/
theorem processWrite_fits_iff (hc : a.Consistent code) (hk : Kept a v h) (hv : v.length = 3)
    (hb : h.mWriteBuffer = []) : Fits (h.processWrite env code) ↔ a.HeadShort env code := by
  have hm : h.mMethod = a.method := congrArg Asked.method hk.asked
  have hmethod := hc.1.method
  unfold processWrite Asked.HeadShort
  rw [hm]
  simp only [methods, List.mem_cons, List.not_mem_nil, or_false] at hmethod
  rcases hmethod with hmethod | hmethod | hmethod | hmethod <;> rw [hmethod]
  · by_cases hfile : code = .fileRequest
    · subst hfile
      rw [((getFunc_fileRequest env hk hv).fits_iff hb)]
      simp
    · by_cases hpart : code = .partialContent
      · subst hpart
        rw [((getFunc_partialContent env hk hv (hc.2.1 rfl).1).fits_iff hb)]
        simp
      · refine iff_of_true ((getFunc_brief env hk hv hfile hpart).fits hb) fun _ => ?_
        exact ⟨fun h => absurd h hfile, fun h => absurd h hpart⟩
  · refine iff_of_true ?_ nofun
    refine ⟨h, rfl, by rw [hb]; decide, ?_⟩
    exact writeLen_of_short (by simp [hb]) (by rw [hb]; decide)
  · exact iff_of_true ((headFunc_brief env hk hv hc.1.length).fits hb) nofun
  · exact iff_of_true ((optionsFunc_brief env hk hv).fits hb) nofun

end HttpServer

open HttpServer

/-- The head of the response to a packet of a fresh object fits. -/
def HeadFits (env : Env) (u : Uninit) (body : List UInt8) : Prop :=
  ∀ code h, processRead env ((new u).receive body) = .ok (code, h) → Fits (h.processWrite env code)

theorem headFits_iff_of_outcome {env : Env} {u : Uninit} {body : List UInt8} {code : HttpCode}
    {a : Asked} (hroom : body.length < 2 ^ 16) (ho : outcome env u body = some (code, a)) :
    HeadFits env u body ↔ a.HeadShort env code := by
  have hout := processRead_outcome env u hroom
  rw [ho] at hout
  obtain ⟨h, hr, ha, hw⟩ := hout
  have hk : Kept a h.mIov h := ⟨ha, rfl⟩
  have hv : h.mIov.length = 3 := by rw [hw.iov]; rfl
  have hiff := processWrite_fits_iff env (outcome_consistent ho) hk hv hw.buffer
  constructor
  · exact fun hfits => hiff.mp (hfits code h hr)
  · intro hshort code' h' hr'
    rw [hr] at hr'
    cases hr'
    exact hiff.mpr hshort

/-- **The head of a response fits `m_write_buffer`** exactly where the request asks for no file, or
its lines leave the head short enough. -/
theorem headFits_iff (env : Env) (u : Uninit) (body : List UInt8)
    (hroom : body.length + 8 ≤ 29000) :
    HeadFits env u body ↔ ∀ q ∈ outcome env u body, q.2.HeadShort env q.1 := by
  have hlt : body.length < 2 ^ 16 := by omega
  cases ho : outcome env u body with
  | none =>
    have hout := processRead_outcome env u hlt
    rw [ho] at hout
    obtain ⟨e, he⟩ := hout
    exact iff_of_true (fun code h hr => by rw [he] at hr; cases hr) fun _ hq => by cases hq
  | some q =>
    rw [headFits_iff_of_outcome hlt ho]
    constructor
    · intro hshort q' hq
      cases hq
      exact hshort
    · exact fun hshort => hshort q rfl

/-- A world in which every path names a file of ten bytes. -/
def Env.tenBytes : Env :=
  { Env.noFiles with
    stat := fun _ => some ⟨10, 0, false, true⟩
    openOk := fun _ => true
    mmap := fun _ => some (List.replicate 10 0) }

/-- A part of a file. -/
theorem headFits_host : HeadFits .tenBytes .zero
    (ascii "GET http://h/x HTTP/1.1\r\nHost: h\r\nRange:bytes=2-5\r\n\r\n") :=
  (headFits_iff .tenBytes .zero _ (by decide)).mpr (by decide +kernel)

/-- A request for a file, with `n` header lines `Range`. -/
def rangesBody (n : ℕ) : List UInt8 :=
  ascii "GET http://h/x HTTP/1.1\r\n" ++ (List.replicate n (ascii "Range:bytes=\r\n")).flatten ++
    ascii "\r\n"

/-- Two hundred header lines `Range`. -/
theorem not_headFits : ¬ ∀ (env : Env) (u : Uninit) (body : List UInt8),
    body.length + 8 ≤ 29000 → HeadFits env u body := by
  intro hall
  have hroom : (rangesBody 200).length + 8 ≤ 29000 := by decide +kernel
  have hlong : ¬ ∀ q ∈ outcome .tenBytes .zero (rangesBody 200), q.2.HeadShort .tenBytes q.1 := by
    decide +kernel
  exact hlong fun q ho => (headFits_iff_of_outcome (by omega) ho).mp (hall _ _ _ hroom)

end ServerNginx
