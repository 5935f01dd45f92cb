import ServerNginx.Http.Announced
import ServerNginx.Http.WellFormed

set_option autoImplicit false

/-!
# Parts of a file

`requestRange body`: the integers of the last `Range: bytes=a-b` line of a request.

* `RangeServed`: the response is the part of the file from `a` to `b` where there is such a part,
  and else the whole file;
* **`rangeServed_iff`**: a GET that gets a file is answered so exactly where `RangeRight` holds of
  the size of the file and the two integers.
-/

namespace ServerNginx

open CString CNumber

variable {env : Env} {a : Asked}

/-! ## The range of a request -/

/-- The integers of a header line `Range: bytes=a-b`. -/
def lineRange (t : List UInt8) : Option (ℤ × ℤ) :=
  (headerParts t).bind fun p =>
    let v := skipBlank p.2
    if p.1 = ascii "Range" ∧ strncaseeq v (ascii "bytes=") 6 then
      (strchr (v.drop 6) 45).bind fun i =>
        match stoi ((v.drop 6).take i), stoi ((v.drop 6).drop (i + 1)) with
        | .ok start, .ok stop => some (start, stop)
        | _, _ => none
    else none

/-- The range after the header lines, up to the one that ends them, is rejected or cannot be parsed,
where it was `r` before. -/
def rangeAfter : Option (ℤ × ℤ) → List (List UInt8) → Option (ℤ × ℤ)
  | r, [] => r
  | r, l :: ls =>
    if lineText l = [] ∨ ¬ LineOk (lineText l) then r
    else if LineRejected (lineText l) then (lineRange (lineText l)).or r
    else rangeAfter ((lineRange (lineText l)).or r) ls

/-- The range of a request. -/
def requestRange (body : List UInt8) : Option (ℤ × ℤ) := rangeAfter none (lines body).tail

theorem lineRange_bounds {t : List UInt8} : ∀ p ∈ lineRange t,
    (-2 ^ 31 ≤ p.1 ∧ p.1 < 2 ^ 31) ∧ -2 ^ 31 ≤ p.2 ∧ p.2 < 2 ^ 31 := by
  intro p hp
  obtain ⟨q, -, hp⟩ := Option.bind_eq_some_iff.mp hp
  dsimp only at hp
  split_ifs at hp
  obtain ⟨i, -, hp⟩ := Option.bind_eq_some_iff.mp hp
  split at hp
  · rename_i start stop hstart hstop
    cases hp
    exact ⟨stoi_bounds hstart, stoi_bounds hstop⟩
  · cases hp

theorem rangeAfter_bounds (ls : List (List UInt8)) : ∀ {r : Option (ℤ × ℤ)},
    (∀ p ∈ r, (-2 ^ 31 ≤ p.1 ∧ p.1 < 2 ^ 31) ∧ -2 ^ 31 ≤ p.2 ∧ p.2 < 2 ^ 31) →
      ∀ p ∈ rangeAfter r ls, (-2 ^ 31 ≤ p.1 ∧ p.1 < 2 ^ 31) ∧ -2 ^ 31 ≤ p.2 ∧ p.2 < 2 ^ 31 := by
  induction ls with
  | nil => exact fun hr => hr
  | cons l ls ih =>
    intro r hr
    have hline : ∀ p ∈ (lineRange (lineText l)).or r,
        (-2 ^ 31 ≤ p.1 ∧ p.1 < 2 ^ 31) ∧ -2 ^ 31 ≤ p.2 ∧ p.2 < 2 ^ 31 := by
      intro p hp
      rcases Option.or_eq_some_iff.mp hp with hl | ⟨-, hl⟩
      · exact lineRange_bounds p hl
      · exact hr p hl
    rw [rangeAfter]
    split_ifs
    · exact hr
    · exact hline
    · exact ih hline

namespace Asked

/-- The two members of the range. -/
def pair (a : Asked) : ℤ × ℤ := (a.rangeStart, a.rangeEnd)

theorem pair_line (t : List UInt8) : (a.line env t).pair = (lineRange t).getD a.pair := by
  unfold Asked.line lineRange
  cases headerParts t with
  | none => rfl
  | some p =>
    obtain ⟨name, v⟩ := p
    rw [Option.bind_some]
    dsimp only
    unfold Asked.value skipBlank
    by_cases hrange : name = ascii "Range"
    · subst hrange
      rw [if_neg (by decide), if_pos rfl]
      by_cases hbytes : strncaseeq (v.drop (strspn v blank)) (ascii "bytes=") 6 = true
      · rw [if_pos hbytes, if_pos ⟨rfl, hbytes⟩]
        unfold Asked.range
        cases strchr ((v.drop (strspn v blank)).drop 6) 45 with
        | none => rfl
        | some i =>
          rw [Option.bind_some]
          dsimp only
          cases stoi (((v.drop (strspn v blank)).drop 6).take i) with
          | error e => rfl
          | ok start => cases stoi (((v.drop (strspn v blank)).drop 6).drop (i + 1)) <;> rfl
      · rw [if_neg hbytes, if_neg fun h => hbytes h.2]
        rfl
    · unfold Asked.length
      simp only [hrange, false_and, if_false, Option.getD_none]
      split_ifs
      · split <;> rfl
      all_goals rfl

theorem pair_headers (ls : List (List UInt8)) : ∀ {a : Asked} {r : Option (ℤ × ℤ)},
    (∀ p ∈ r, a.pair = p) → ∀ p ∈ rangeAfter r ls, (a.headers env ls).pair = p := by
  induction ls with
  | nil => exact fun hr => hr
  | cons l ls ih =>
    intro a r hr
    have hline : ∀ p ∈ (lineRange (lineText l)).or r, (a.line env (lineText l)).pair = p := by
      intro p hp
      rw [pair_line]
      rcases Option.or_eq_some_iff.mp hp with hl | ⟨hl, hp⟩
      · rw [hl, Option.getD_some]
      · rw [hl, Option.getD_none]
        exact hr p hp
    rw [rangeAfter, Asked.headers]
    split_ifs
    · exact hr
    · exact hline
    · exact ih hline

theorem pair_file (path : List UInt8) : (a.file env path).2.pair = a.pair := by
  have hopen : ∀ b : Asked, (b.openFile env path).2.pair = b.pair := by
    intro b
    unfold Asked.openFile Asked.mapped
    split_ifs <;> rfl
  unfold Asked.file
  split
  · rfl
  · dsimp only
    split_ifs
    · rfl
    · rfl
    · exact hopen _
    · rfl
    · exact hopen _

end Asked

/-- **The range of a request** that is not rejected is the one its response is about. -/
theorem outcome_pair {u : Uninit} {body : List UInt8} {code : HttpCode} {p : ℤ × ℤ}
    (ho : outcome env u body = some (code, a)) (hcode : code ≠ .badRequest)
    (hp : requestRange body = some p) : a.pair = p := by
  have hbody : ∀ m url, reading body = .request m url →
      ((HttpServer.new u).asked.body env body).pair = p := by
    intro m url hr
    obtain ⟨l, ls, hl, hline⟩ := reading_request hr
    rw [requestRange, hl] at hp
    unfold Asked.body
    rw [hl]
    dsimp only
    rw [show (HttpServer.new u).asked.method = .get from rfl, hline]
    exact Asked.pair_headers ls (fun _ hq => by cases hq) p hp
  rcases outcome_cases ho with ⟨rfl, -⟩ | ⟨m, url, hr, ⟨-, rfl, -⟩ | hfile⟩
  · exact absurd rfl hcode
  · exact hbody m url hr
  · have hf := @Asked.pair_file env ((HttpServer.new u).asked.body env body) (localFileAddr ++ url)
    rw [hfile] at hf
    exact hf.trans (hbody m url hr)

namespace Asked

/-- What `do_request` tests before it sends a part of a file. -/
def Tests (a : Asked) : Prop := (a.rangeStart ≠ 0 ∧ a.rangeEnd ≠ 0) ∧ a.RangeFits

/-- A part of a file is sent where the test succeeds, and a whole file where it fails. -/
def Tested (code : HttpCode) (a : Asked) : Prop :=
  (code = .partialContent → a.Tests) ∧ (code = .fileRequest → a.method ≠ .options → ¬ a.Tests)

theorem tested_of_ne {code : HttpCode} (hpart : code ≠ .partialContent)
    (hfile : code ≠ .fileRequest) : Tested code a :=
  ⟨fun hc => absurd hc hpart, fun hc => absurd hc hfile⟩

theorem tested_openFile (path : List UInt8) :
    Tested (a.openFile env path).1 (a.openFile env path).2 := by
  unfold Asked.openFile Asked.mapped
  split_ifs with _ htest
  · exact ⟨fun _ => htest, fun hc => absurd hc (by simp)⟩
  · exact ⟨fun hc => absurd hc (by simp), fun _ _ => htest⟩
  · exact tested_of_ne (by simp) (by simp)

theorem tested_file (path : List UInt8) : Tested (a.file env path).1 (a.file env path).2 := by
  unfold Asked.file
  split
  · exact tested_of_ne (by simp) (by simp)
  · dsimp only
    split_ifs
    · exact tested_of_ne (by simp) (by simp)
    · exact tested_of_ne (by simp) (by simp)
    · exact tested_openFile path
    · exact tested_of_ne (by simp) (by simp)
    · exact tested_openFile path

end Asked

theorem outcome_tested {u : Uninit} {body : List UInt8} {code : HttpCode}
    (ho : outcome env u body = some (code, a)) : a.Tested code := by
  rcases outcome_cases ho with ⟨rfl, -⟩ | ⟨m, url, -, ⟨rfl, -, hopt⟩ | hfile⟩
  · exact Asked.tested_of_ne (by simp) (by simp)
  · exact ⟨fun hc => absurd hc (by simp), fun _ hm => absurd hopt hm⟩
  · have hf := @Asked.tested_file env ((HttpServer.new u).asked.body env body)
      (localFileAddr ++ url)
    rw [hfile] at hf
    exact hf

/-! ## The response -/

namespace HttpServer

variable {u : Uninit} {h g : HttpServer} {code : HttpCode} {hdr body : List UInt8} {r : Reply}

/-- The digits of the status in the response. -/
def Reply.status (r : Reply) : List UInt8 := (r.obj.mWriteBuffer.drop 9).take 3

/-- The bytes of `m_iov[2]`, if they lie inside the mapping. -/
def Reply.content (r : Reply) : Option (List UInt8) := r.obj.mIov[2]?.bind r.obj.segment

/-- The file has the bytes from `start` to `stop`. -/
def HasPart (size start stop : ℤ) : Prop := 0 ≤ start ∧ start ≤ stop ∧ stop < size

instance (size start stop : ℤ) : Decidable (HasPart size start stop) := by
  unfold HasPart
  infer_instance

/-- **The response to a GET of a range**: it sends bytes of the file, and the part the request asks
for exactly where there is one. -/
structure RangeServed (file : List UInt8) (start stop : ℤ) (r : Reply) : Prop where
  inside : r.content.isSome
  status : r.status = stdToString 206 ↔ HasPart file.length start stop
  part : HasPart file.length start stop →
    r.content = some ((file.drop start.toNat).take (stop - start + 1).toNat)
  whole : ¬ HasPart file.length start stop → r.status = stdToString 200 ∧ r.content = some file

/-- `do_request` sends a part of the file only where the file has it, and all of it only where it
has not, with a size that is an `int`. -/
def RangeRight (size start stop : ℤ) : Prop :=
  if (start ≠ 0 ∧ stop ≠ 0) ∧ ¬ (start < 0 ∨ size < stop) then HasPart size start stop
  else ¬ HasPart size start stop ∧ size < 2 ^ 31

instance (size start stop : ℤ) : Decidable (RangeRight size start stop) := by
  unfold RangeRight
  infer_instance

/-! ## What `Business` leaves behind -/

theorem status_append {status : ℤ} {title t : List UInt8} {headers : List (List UInt8)}
    (hs : digits status = 3) :
    ((headText status title headers ++ t).drop 9).take 3 = stdToString status := by
  have h9 : (ascii "HTTP/1.1 ").length = 9 := by decide
  rw [headText, ended_cons, statusLine]
  simp only [List.append_assoc]
  rw [List.drop_left' h9, List.take_left' hs]

theorem status_headText {status : ℤ} {title : List UInt8} {headers : List (List UInt8)}
    (hs : digits status = 3) :
    ((headText status title headers).drop 9).take 3 = stdToString status := by
  rw [← List.append_nil (headText status title headers)]
  exact status_append hs

theorem status_of_head {status : ℤ} {title : List UInt8} {headers : List (List UInt8)}
    (hb : h.mWriteBuffer = [])
    (hobj : r.obj.mWriteBuffer = h.mWriteBuffer ++ headText status title headers)
    (hs : digits status = 3) : r.status = stdToString status := by
  rw [hb, List.nil_append] at hobj
  rw [Reply.status, hobj]
  exact status_headText hs

theorem business_handed (hroom : body.length < 2 ^ 16)
    (hr : (new u).business env hdr body = .ok r) :
    ∃ code h g len bytes, Handed env u body code h ∧ h.processWrite env code = .ok g ∧
      g.writeLen = .ok len ∧ r.obj = { g with mIov := g.mIov.set 0 ⟨.pkgHeader bytes, 8⟩ } := by
  unfold business at hr
  cases hread : processRead env ((new u).receive body) with
  | error e =>
    rw [hread] at hr
    cases hr
  | ok q =>
    obtain ⟨code, h⟩ := q
    rw [hread] at hr
    obtain ⟨g, len, hg, hlen, -, -, bytes, hobj⟩ := reply_eq_ok hr
    exact ⟨code, h, g, len, bytes, handed hroom hread, hg, hlen, hobj⟩

/-- **A GET that gets a file** sends the file that is mapped, or a part of it. -/
theorem business_get {file : List UInt8} {id : ℕ} (hs : env.Sizes) (hroom : body.length < 2 ^ 16)
    (hr : (new u).business env hdr body = .ok r) (hm : r.obj.mMethod = .get)
    (hf : r.obj.mFilePtr = .mapped id file) :
    ∃ code h g bytes, Handed env u body code h ∧ SendsFile h code ∧ h.mMethod = .get ∧
      h.mFilePtr = .mapped id file ∧ (file.length : ℤ) = h.mStat.stSize ∧
      h.getFunc env code = .ok g ∧
      r.obj = { g with mIov := g.mIov.set 0 ⟨.pkgHeader bytes, 8⟩ } := by
  obtain ⟨code, h, g, -, bytes, hh, hg, -, hobj⟩ := business_handed hroom hr
  have hbeside := ((processWrite_post code).of_ok hg).1
  have hmg : g.mMethod = .get := (congrArg mMethod hobj :).symm.trans hm
  have hfg : g.mFilePtr = .mapped id file := (congrArg mFilePtr hobj :).symm.trans hf
  have hmh : h.mMethod = .get := (congrArg mMethod hbeside :).symm.trans hmg
  have hfh : h.mFilePtr = .mapped id file := (congrArg mFilePtr hbeside :).symm.trans hfg
  have hsends : SendsFile h code := by
    by_contra hnot
    rcases hh.unopened hnot with hnull | hfail
    · rw [hfh] at hnull
      cases hnull
    · rw [hfh] at hfail
      cases hfail
  obtain ⟨path, file', hfile', hst, hmap⟩ := hh.opened hsends
  rw [hfh] at hfile'
  cases hfile'
  rw [processWrite, hmh] at hg
  exact ⟨code, h, g, bytes, hh, hsends, hmh, hfh, hs path _ _ hst hmap, hg, hobj⟩

theorem content_iovBody {id : ℕ} {file : List UInt8} {off len : ℤ} (hv : g.mIov.length = 3)
    (hf : g.mFilePtr = .mapped id file) {bytes : List UInt8} (hobj : r.obj =
      { (g.iovBody off len).iovHead 3 with
        mIov := ((g.iovBody off len).iovHead 3).mIov.set 0 ⟨.pkgHeader bytes, 8⟩ }) :
    r.content = if 0 ≤ off ∧ off + sizeT len ≤ file.length then
      some ((file.drop off.toNat).take (sizeT len)) else none := by
  obtain ⟨v₀, v₁, v₂, hiov⟩ := List.length_eq_three.mp hv
  rw [Reply.content, hobj]
  simp [iovBody, iovHead, hiov, hf, segment]

theorem rangeServed_part {file : List UInt8} {start stop : ℤ} (hst : r.status = stdToString 206)
    (hstart : 0 ≤ start) (hstart' : start < 2 ^ 31) (hstop : -2 ^ 31 ≤ stop ∧ stop < 2 ^ 31)
    (hne : start ≠ 0)
    (hc : r.content = if 0 ≤ start ∧ start + sizeT (int32 (stop - start + 1)) ≤ file.length then
      some ((file.drop start.toNat).take (sizeT (int32 (stop - start + 1)))) else none) :
    RangeServed file start stop r ↔ HasPart file.length start stop := by
  constructor
  · exact fun hs => hs.status.mp hst
  · intro hp
    have hp' := hp
    obtain ⟨-, hle, hlt⟩ := hp'
    have hlen : int32 (stop - start + 1) = stop - start + 1 := int32_of_lt (by omega) (by omega)
    have hsize : sizeT (stop - start + 1) = (stop - start + 1).toNat := by
      unfold sizeT
      omega
    rw [hlen, hsize, if_pos ⟨hstart, by omega⟩] at hc
    exact ⟨by rw [hc]; rfl, iff_of_true hst hp, fun _ => hc, fun hn => absurd hp hn⟩

theorem rangeServed_whole {file : List UInt8} {start stop : ℤ} (hst : r.status = stdToString 200)
    (hoff : (file.length : ℤ) < 2 ^ 63)
    (hc : r.content = if 0 ≤ (0 : ℤ) ∧ 0 + (sizeT (int32 file.length) : ℤ) ≤ file.length then
      some ((file.drop (0 : ℤ).toNat).take (sizeT (int32 file.length))) else none) :
    RangeServed file start stop r ↔
      ¬ HasPart file.length start stop ∧ (file.length : ℤ) < 2 ^ 31 := by
  have hother : r.status ≠ stdToString 206 := by
    rw [hst]
    decide
  constructor
  · intro hs
    have hnot : ¬ HasPart file.length start stop := fun hp => hother (hs.status.mpr hp)
    refine ⟨hnot, ?_⟩
    have hall := (hs.whole hnot).2
    rw [hc] at hall
    split_ifs at hall with hfit
    have hlen := congrArg List.length (Option.some.inj hall)
    simp only [List.length_take, Int.toNat_zero, List.drop_zero] at hlen
    have hb := int32_bounds (file.length : ℤ)
    unfold sizeT at hlen hfit
    omega
  · rintro ⟨hnot, hlt⟩
    have hlen : int32 file.length = file.length := int32_of_lt (by omega) hlt
    have hsize : sizeT (file.length : ℤ) = file.length := by
      unfold sizeT
      omega
    rw [hlen, hsize, if_pos ⟨le_rfl, by omega⟩] at hc
    simp only [Int.toNat_zero, List.drop_zero, List.take_length] at hc
    exact ⟨by rw [hc]; rfl, iff_of_false hother hnot, fun hp => absurd hp hnot, fun _ => ⟨hst, hc⟩⟩

/-- **A GET of a range** that gets a file is answered right exactly where the test of `do_request`
is right about the range. -/
theorem rangeServed_iff (env : Env) (u : Uninit) (hdr body : List UInt8) (r : Reply)
    (file : List UInt8) (id : ℕ) (start stop : ℤ) (hs : env.Sizes)
    (hoff : (file.length : ℤ) < 2 ^ 63) (hroom : body.length + 8 ≤ 29000)
    (hr : (new u).business env hdr body = .ok r) (hm : r.obj.mMethod = .get)
    (hf : r.obj.mFilePtr = .mapped id file)
    (hrange : requestRange body = some (start, stop)) :
    RangeServed file start stop r ↔ RangeRight file.length start stop := by
  obtain ⟨code, h, g, bytes, hh, hsends, hmh, hfh, hsize, hg, hobj⟩ :=
    business_get hs (by omega) hr hm hf
  have hne : code ≠ .badRequest := by
    rintro rfl
    rcases hsends with hc | ⟨hc, -⟩ <;> cases hc
  have hpair := outcome_pair hh.outcome hne hrange
  have htested := outcome_tested hh.outcome
  obtain rfl : h.mRangeStart = start := congrArg Prod.fst hpair
  obtain rfl : h.mRangeEnd = stop := congrArg Prod.snd hpair
  obtain ⟨hb₁, hb₂⟩ := rangeAfter_bounds _ (fun _ hq => by cases hq) _ hrange
  unfold RangeRight
  rcases hsends with rfl | ⟨rfl, -⟩
  · have htest := htested.1 rfl
    have hfits : ¬ (h.mRangeStart < 0 ∨ h.mStat.stSize < h.mRangeEnd) := htest.2
    rw [(getFunc_part env htest.2).of_ok hg] at hobj
    rw [if_pos (by rw [hsize]; exact htest)]
    exact rangeServed_part (status_of_head hh.buffer (congrArg mWriteBuffer hobj :) (by decide))
      (by omega) hb₁.2 hb₂ htest.1.1 (content_iovBody (g := h.put _) hh.iov hfh hobj)
  · have hget : h.asked.method ≠ .options := by
      rw [show h.asked.method = .get from hmh]
      decide
    have htest := htested.2 rfl hget
    have hcl : h.mContentLength = int32 file.length := by
      rw [hsize]
      exact hh.consistent.2.2 rfl hget
    rw [(getFunc_whole env h).of_ok hg, hcl] at hobj
    rw [if_neg (by rw [hsize]; exact htest)]
    exact rangeServed_whole (status_of_head hh.buffer (congrArg mWriteBuffer hobj :) (by decide))
      hoff (content_iovBody (g := (h.put _).withRange _) hh.iov hfh hobj)

/-- Bytes 2 to 5 of a file of ten bytes. -/
theorem rangeServed_inner : ∃ r, (new .zero).business .tenBytes (List.replicate 8 0)
    (ascii "GET http://h/x HTTP/1.1\r\nRange:bytes=2-5\r\n\r\n") = .ok r ∧
      RangeServed (List.replicate 10 0) 2 5 r := by
  obtain ⟨r, hr, hcheck⟩ := Run.exists_of_any
    (show ((new .zero).business .tenBytes (List.replicate 8 0)
      (ascii "GET http://h/x HTTP/1.1\r\nRange:bytes=2-5\r\n\r\n")).toOption.any (fun r =>
        decide (r.obj.mMethod = .get ∧ r.obj.mFilePtr = .mapped 1 (List.replicate 10 0))) = true by
      decide +kernel)
  have hr := eq_ok_of_toOption hr
  obtain ⟨hm, hf⟩ := of_decide_eq_true hcheck
  exact ⟨r, hr, (rangeServed_iff .tenBytes .zero _ _ r _ 1 2 5 sizes_tenBytes (by decide)
    (by decide) hr hm hf (by decide +kernel)).mpr (by decide)⟩

/-- Bytes 2 to 10 of a file of ten bytes: the last of them lies behind the file. -/
theorem not_rangeServed : ¬ ∀ (env : Env) (u : Uninit) (hdr body : List UInt8) (r : Reply)
    (file : List UInt8) (id : ℕ) (start stop : ℤ), env.Sizes → (file.length : ℤ) < 2 ^ 63 →
    body.length + 8 ≤ 29000 → (new u).business env hdr body = .ok r → r.obj.mMethod = .get →
    r.obj.mFilePtr = .mapped id file → requestRange body = some (start, stop) →
      RangeServed file start stop r := by
  intro hall
  obtain ⟨r, hr, hcheck⟩ := Run.exists_of_any
    (show ((new .zero).business .tenBytes (List.replicate 8 0)
      (ascii "GET http://h/x HTTP/1.1\r\nRange:bytes=2-10\r\n\r\n")).toOption.any (fun r =>
        decide (r.obj.mMethod = .get ∧ r.obj.mFilePtr = .mapped 1 (List.replicate 10 0) ∧
          r.content = none)) = true by
      decide +kernel)
  obtain ⟨hm, hf, hnone⟩ := of_decide_eq_true hcheck
  have hinside := (hall .tenBytes .zero _ _ r _ 1 2 10 sizes_tenBytes (by decide) (by decide)
    (eq_ok_of_toOption hr) hm hf (by decide +kernel)).inside
  rw [hnone] at hinside
  cases hinside

end HttpServer

end ServerNginx
