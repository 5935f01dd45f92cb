import ServerNginx.Http.Grammar
import ServerNginx.Http.Order
import ServerNginx.Lib.StrTime

set_option autoImplicit false

/-!
# Asking whether a file has changed

The response to HEAD shows the time of the file under `Last-Modified`; a client sends it back under
`If-Modified-Since`. The text is that of `localtime`, whatever the `GMT` behind it says, and is read
by `mktime` with a `tm_isdst` that `memset` has cleared: as standard time.

* `strtimeConvertTimeT_text`: the text is read as the time it was made of, later by as much as
  summer time was ahead then;
* `Revalidates`: a file that everybody may read, and that is no directory, is answered with 304 if
  and only if the time sent back is not 0 and the file is not newer;
* **`revalidated_iff`**: so is the answer to what HEAD has shown, the hour of summer time included.
-/

namespace ServerNginx

open CString CNumber StrTime

/-- `format` of `time_t_convert_strtime` and `strtime_convert_time_t`. -/
def timeFormat : List UInt8 := ascii "%a, %d %b %Y %H:%M:%S GMT"

/-- Its parts. -/
def timeDirectives : List Directive := (directives timeFormat).getD []

theorem unambiguous_timeDirectives : Unambiguous timeDirectives := by decide +kernel

theorem field_mem_timeDirectives (f : Field) : .field f ∈ timeDirectives := by
  cases f <;> decide +kernel

/-- The clock on the wall: seconds east of Greenwich, and when summer time is ahead by how much. -/
structure Zone where
  off : ℤ
  save : ℤ
  dst : ℤ → Bool

namespace Zone

variable (z : Zone) {t : ℤ}

/-- How far summer time is ahead. -/
def shift (t : ℤ) : ℤ := if z.dst t then z.save else 0

/-- The time on the wall, as if it were that of Greenwich. -/
def wall (t : ℤ) : ℤ := t + z.off + z.shift t

/-- `localtime`. -/
def localtime (t : ℤ) : Tm := gmtime (z.wall t)

/-- `mktime` of a `tm` whose `tm_isdst` is 0. -/
def mktime (tm : Tm) : ℤ := timegm tm - z.off

/-- `time_t_convert_strtime`. -/
def timeTConvertStrtime (t : ℤ) : List UInt8 := strftime timeDirectives (z.localtime t)

/-- `strtime_convert_time_t`. -/
def strtimeConvertTimeT (timestr : List UInt8) : ℤ :=
  match strptime timeDirectives Tm.zero timestr with
  | some q => z.mktime q.1
  | none => 0

/-- The year has four digits, so that its text fits `TIME_BUFFER_SIZE`. -/
def InRange (t : ℤ) : Prop := 1000 ≤ yearAt (z.wall t) ∧ yearAt (z.wall t) ≤ 9999

instance (t : ℤ) : Decidable (z.InRange t) := inferInstanceAs (Decidable (_ ∧ _))

/-- **The text of a time** is read as that time, or as a later one in summer. -/
theorem strtimeConvertTimeT_text (ht : z.InRange t) :
    z.strtimeConvertTimeT (z.timeTConvertStrtime t) = t + z.shift t := by
  have hlo : 0 ≤ yearAt (z.wall t) := le_trans (by decide) ht.1
  have hround : strptime timeDirectives Tm.zero (z.timeTConvertStrtime t ++ []) =
      some (assign timeDirectives (z.localtime t) Tm.zero, []) :=
    strptime_strftime unambiguous_timeDirectives (fun f _ => gmtime_fits hlo ht.2 f)
      (fun _ hc => absurd hc (by simp)) Tm.zero
  have hassign : assign timeDirectives (z.localtime t) Tm.zero = z.localtime t := by
    funext f
    exact if_pos (field_mem_timeDirectives f)
  rw [List.append_nil, hassign] at hround
  rw [strtimeConvertTimeT, hround]
  show timegm (gmtime (z.wall t)) - z.off = _
  rw [timegm_gmtime hlo]
  unfold wall
  omega

example : Zone.timeTConvertStrtime ⟨0, 0, fun _ => false⟩ 784111777 =
    ascii "Sun, 06 Nov 1994 08:49:37 GMT" := by decide +kernel

theorem isPrint_text : ∀ c ∈ z.timeTConvertStrtime t, isPrint c = true := by
  intro c hc
  obtain ⟨d, hd, hc⟩ := List.mem_flatMap.mp hc
  refine write_isPrint ?_ c hc
  have hlits : ∀ d ∈ timeDirectives, ∀ c, d = .lit c → isPrint c = true := by
    have hall : timeDirectives.all (fun d => match d with
      | .lit c => isPrint c
      | _ => true) = true := by decide +kernel
    rintro d hd c rfl
    exact List.all_eq_true.mp hall _ hd
  exact hlits d hd

theorem length_text : (z.timeTConvertStrtime t).length < timeBufferSize :=
  (length_strftime_le _ _).trans_lt (by decide +kernel)

end Zone

/-- The world where it is that time on the wall. -/
def Env.inZone (env : Env) (z : Zone) : Env :=
  { env with
    strtime := fun t => if z.InRange t then z.timeTConvertStrtime t else env.strtime t
    strtime_length := fun t => by
      split_ifs
      · exact z.length_text
      · exact env.strtime_length t
    strtime_nul := fun t => by
      split_ifs
      · exact fun h0 => absurd (z.isPrint_text 0 h0) (by decide)
      · exact env.strtime_nul t
    timeOfStr := z.strtimeConvertTimeT }

theorem Env.plainTimes_inZone {env : Env} (ht : env.PlainTimes) (z : Zone) :
    (env.inZone z).PlainTimes := by
  intro t c hc
  simp only [Env.inZone] at hc
  split_ifs at hc
  · have hprint := z.isPrint_text c hc
    by_contra heol
    rw [Bool.not_eq_false, isEol_iff] at heol
    rcases heol with rfl | rfl
    · exact absurd hprint (by decide)
    · exact absurd hprint (by decide)
  · exact ht t c hc

/-- The value of the header `Last-Modified`. -/
def modifiedField (l : List UInt8) : Option (List UInt8) :=
  (headerParts l).bind fun p =>
    if p.1 = ascii "Last-Modified" then some (skipBlank p.2) else none

/-- The value of `Last-Modified` in a response. -/
def HttpServer.Reply.lastModified (r : HttpServer.Reply) : Option (List UInt8) :=
  (headOf r.obj.mWriteBuffer).bind fun p => p.1.tail.findSome? modifiedField

/-- A line that sends a time back. -/
def sinceLine (v : List UInt8) : List UInt8 := ascii "If-Modified-Since: " ++ v

/-! ## The file -/

namespace Asked

variable {env : Env} {a b : Asked} {st : Stat} {path : List UInt8} {code : HttpCode}

theorem openFile_code (hf : a.openFile env path = (code, b)) :
    code ≠ .notModified ∧ b.callbacks = a.callbacks := by
  unfold Asked.openFile Asked.mapped at hf
  split_ifs at hf
  · cases hf
    exact ⟨nofun, rfl⟩
  · cases hf
    exact ⟨nofun, rfl⟩
  · cases hf
    exact ⟨nofun, rfl⟩

/-- **`do_request` with a time**: 304 for a file that is not newer, and for a newer one the time is
shown. The time 0 is taken for none. -/
theorem file_since (hst : env.stat path = some st) (hdir : st.isDir = false)
    (hread : st.iroth = true) (hf : a.file env path = (code, b)) :
    (code = .notModified ↔ a.ifModifiedSince ≠ 0 ∧ st.stMtime ≤ a.ifModifiedSince) ∧
      (a.ifModifiedSince ≠ 0 → code ≠ .notModified →
        Callback.ifModifiedSince ∈ b.callbacks) := by
  rw [Asked.file, hst] at hf
  simp only [hdir, hread, Bool.false_eq_true, if_false, Bool.not_true] at hf
  by_cases hne : a.ifModifiedSince ≠ 0
  · rw [if_pos hne] at hf
    by_cases hlt : a.ifModifiedSince < st.stMtime
    · rw [if_pos hlt] at hf
      obtain ⟨hcode, hcalls⟩ := openFile_code hf
      refine ⟨iff_of_false hcode fun h => absurd hlt (not_lt.mpr h.2), fun _ _ => ?_⟩
      rw [hcalls]
      exact List.mem_append_right _ List.mem_cons_self
    · rw [if_neg hlt] at hf
      cases hf
      exact ⟨iff_of_true rfl ⟨hne, not_lt.mp hlt⟩, fun _ h => absurd rfl h⟩
  · rw [if_neg hne] at hf
    exact ⟨iff_of_false (openFile_code hf).1 fun h => hne h.1, fun h => absurd h hne⟩

theorem file_stat (hst : env.stat path = some st) : (a.file env path).2.stat = st := by
  have hopen : ∀ a : Asked, (a.openFile env path).2.stat = a.stat := by
    intro a
    unfold Asked.openFile Asked.mapped
    split_ifs <;> rfl
  unfold Asked.file
  rw [hst]
  dsimp only
  split_ifs
  · rfl
  · rfl
  · exact hopen _
  · rfl
  · exact hopen _

end Asked

/-! ## The lines -/

variable {env : Env} {z : Zone} {t : ℤ} {v name text : List UInt8}

theorem modifiedField_append (name : List UInt8) (htext : text = name ++ [58, 32])
    (hname : (58 : UInt8) ∉ name) : modifiedField (text ++ v) =
      if name = ascii "Last-Modified" then some (skipBlank (32 :: v)) else none := by
  have hparts : headerParts (text ++ v) = some (name, 32 :: v) := by
    rw [htext, List.append_assoc]
    exact headerParts_append hname (32 :: v)
  rw [modifiedField, hparts, Option.bind_some]

theorem Zone.skipBlank_text (ht : z.InRange t) :
    skipBlank (32 :: z.timeTConvertStrtime t) = z.timeTConvertStrtime t := by
  have hlo : 0 ≤ yearAt (z.wall t) := le_trans (by decide) ht.1
  obtain ⟨c, r, hc, halpha, -⟩ := write_head (d := .field .wday)
    fun f _ => gmtime_fits hlo ht.2 f
  have hblank : c ∉ blank := by
    have hall : ∀ b ∈ blank, isAlpha b = false := by decide +kernel
    intro hmem
    rw [hall c hmem] at halpha
    cases halpha
  have htext : z.timeTConvertStrtime t = c :: (r ++
      strftime (timeDirectives.drop 1) (z.localtime t)) := by
    have hhead : timeDirectives = .field .wday :: timeDirectives.drop 1 := by decide +kernel
    have hfirst : write (z.localtime t) (.field .wday) = c :: r := hc
    rw [timeTConvertStrtime, hhead, strftime, List.flatMap_cons, hfirst]
    rfl
  rw [htext]
  exact skipBlank_gap (v := [32]) (by decide +kernel) hblank

theorem Asked.line_since (a : Asked) (h0 : (0 : UInt8) ∉ v) :
    a.line env (lineText (sinceLine v)) =
      { a with ifModifiedSince := env.timeOfStr (skipBlank (32 :: v)) } := by
  have htext : lineText (sinceLine v) = sinceLine v := by
    refine List.takeWhile_eq_self_iff.mpr fun c hc => decide_eq_true ?_
    rcases List.mem_append.mp hc with hc | hc
    · have hall : ∀ c ∈ ascii "If-Modified-Since: ", c ≠ 0 := by decide +kernel
      exact hall c hc
    · rintro rfl
      exact h0 hc
  have hparts : headerParts (sinceLine v) = some (ascii "If-Modified-Since", 32 :: v) := by
    have hname : ascii "If-Modified-Since: " = ascii "If-Modified-Since" ++ [58, 32] := by decide
    rw [sinceLine, hname, List.append_assoc]
    exact headerParts_append (by decide) (32 :: v)
  rw [htext, Asked.line, hparts]
  rfl

/-- **What a request asks for** that sends a time back. -/
theorem Request.since {l₀ url : List UInt8} {ls : List (List UInt8)} {m : Method}
    (hg : Request env l₀ (sinceLine v :: ls) m url) (h0 : (0 : UInt8) ∉ v) (u : Uninit) :
    ((HttpServer.new u).asked.body env (requestBody l₀ (sinceLine v :: ls))).ifModifiedSince =
      env.timeOfStr (skipBlank (32 :: v)) := by
  rw [hg.asked, Asked.afterLines_perm hg.names (List.perm_append_singleton (sinceLine v) ls).symm,
    Asked.afterLines, List.foldl_append, List.foldl_cons, List.foldl_nil, Asked.line_since _ h0]

namespace HttpServer

variable {u : Uninit} {hdr body : List UInt8} {r : Reply} {a : Asked} {code : HttpCode}

theorem lastModified_of_head (ht : env.PlainTimes) (hroom : body.length < 2 ^ 16)
    (hm : a.method = .head) (ho : outcome env u body = some (code, a))
    (hr : (new u).business env hdr body = .ok r) :
    r.lastModified = some (skipBlank (32 :: env.strtime a.stat.stMtime)) := by
  obtain ⟨code', h, g, len, bytes, hh, hg, -, hobj⟩ := business_handed hroom hr
  cases ho.symm.trans hh.outcome
  rw [processWrite, show h.mMethod = .head from hm] at hg
  obtain rfl := (headFunc_puts env h).of_ok hg
  have hbuf : r.obj.mWriteBuffer = headText 200 (ascii "OK") (h.asked.headLines env) := by
    rw [hobj]
    simp [iovHead, put, hh.buffer]
  have hheaders : ∀ l ∈ h.asked.headLines env, ∃ name, name ≠ [] ∧ Header name l := by
    have hother : ∀ {l}, OtherHeader l → ∃ name, name ≠ [] ∧ Header name l := by
      rintro l ⟨name, hne, -, hh⟩
      exact ⟨name, hne, hh⟩
    simp only [Asked.headLines, List.forall_mem_cons]
    exact ⟨hother (Asked.otherHeader_dateLine ht), hother otherHeader_allowLine,
      ⟨ascii "Content-Length", by decide, header_numberLine (by decide) (by decide)
        (by decide) _⟩, hother (Asked.otherHeader_modifiedLine ht _), hother otherHeader_serverLine,
      hother otherHeader_acceptLine, by simp⟩
  have hst : IsStatusLine (statusLine 200 (ascii "OK")) := by decide
  have hplain : Plain (ascii "OK") := by decide
  have hmsg := message_headText hst hplain hheaders []
  rw [List.append_nil] at hmsg
  have hdate : modifiedField (dateLine env) = none :=
    modifiedField_append (ascii "Date") (by decide) (by decide)
  have hallow : modifiedField allowLine = none :=
    modifiedField_append (ascii "Allow") (by decide) (by decide)
  have hlength : modifiedField (numberLine (ascii "Content-Length: ") h.asked.contentLength) =
      none := modifiedField_append (ascii "Content-Length") (by decide) (by decide)
  have hmod : modifiedField (modifiedLine env h.asked.stat) =
      some (skipBlank (32 :: env.strtime h.asked.stat.stMtime)) :=
    modifiedField_append (ascii "Last-Modified") (by decide) (by decide)
  rw [Reply.lastModified, hbuf, hmsg.head, Option.bind_some, List.tail_cons, Asked.headLines,
    List.findSome?_cons, hdate, List.findSome?_cons, hallow, List.findSome?_cons, hlength,
    List.findSome?_cons, hmod]

/-- **GET with `v` sent back**, for a file that everybody may read and that is no directory, is
answered with 304 if and only if `t` is not 0 and the file is not newer than `t`; a newer one is
answered with its time. -/
def Revalidates (z : Zone) (v url : List UInt8) (t : ℤ) : Prop :=
  ∀ (env : Env) (u : Uninit) (l₀ : List UInt8) (ls : List (List UInt8)) (st : Stat),
    Request (env.inZone z) l₀ (sinceLine v :: ls) .get url →
    env.stat (localFileAddr ++ url) = some st → st.isDir = false → st.iroth = true →
    ∃ code h, processRead (env.inZone z)
        ((new u).receive (requestBody l₀ (sinceLine v :: ls))) = .ok (code, h) ∧
      (code = .notModified ↔ t ≠ 0 ∧ st.stMtime ≤ t) ∧
      (t ≠ 0 → code ≠ .notModified → .ifModifiedSince ∈ h.mHeaderFuncVec)

/-- **A time that is sent back** is compared as it is read. -/
theorem revalidates_text {z : Zone} {url : List UInt8} {t : ℤ} (hin : z.InRange t)
    (hfit : url.length < 190) :
    Revalidates z (z.timeTConvertStrtime t) url (t + z.shift t) := by
  intro env u l₀ ls st hg hst hdir hread
  have h0 : (0 : UInt8) ∉ z.timeTConvertStrtime t := fun h0 =>
    absurd (z.isPrint_text 0 h0) (by decide)
  set body := requestBody l₀ (sinceLine (z.timeTConvertStrtime t) :: ls) with hbody
  have hsince : ((new u).asked.body (env.inZone z) body).ifModifiedSince = t + z.shift t := by
    rw [hbody, hg.since h0, Zone.skipBlank_text hin]
    exact z.strtimeConvertTimeT_text hin
  obtain ⟨⟨code, b⟩, hfile⟩ : ∃ q, ((new u).asked.body (env.inZone z) body).file (env.inZone z)
    (localFileAddr ++ url) = q := ⟨_, rfl⟩
  have ho : outcome (env.inZone z) u body = some (code, b) := by
    unfold outcome
    dsimp only
    rw [hg.reading]
    dsimp only
    rw [if_neg (by decide), if_pos hfit, hfile]
  have hout := processRead_outcome (env.inZone z) u hg.room
  rw [ho] at hout
  obtain ⟨h, hproc, rfl, -⟩ := hout
  have hst' : (env.inZone z).stat (localFileAddr ++ url) = some st := hst
  obtain ⟨hcode, hcalls⟩ := Asked.file_since hst' hdir hread hfile
  rw [hsince] at hcode hcalls
  exact ⟨code, h, hproc, hcode, hcalls⟩

/-- **Asking again**, for a URL shorter than 190 bytes. HEAD shows a time, and GET with that time is
answered with 304 if and only if the file has not become newer, or has in the time that summer time
was ahead; never where the time read is 0, which counts as no header. -/
theorem revalidated_iff (z : Zone) (env : Env) (ht : env.PlainTimes) (u : Uninit)
    (hdr l₀ url : List UInt8) (ls : List (List UInt8)) (st : Stat)
    (hh : Request (env.inZone z) l₀ ls .head url) (hfit : url.length < 190)
    (hst : env.stat (localFileAddr ++ url) = some st) (hin : z.InRange st.stMtime) :
    ∃ r v, (new u).business (env.inZone z) hdr (requestBody l₀ ls) = .ok r ∧
      r.lastModified = some v ∧ Revalidates z v url (st.stMtime + z.shift st.stMtime) := by
  set body := requestBody l₀ ls with hbody
  obtain ⟨⟨code, b⟩, hfile⟩ : ∃ q, ((new u).asked.body (env.inZone z) body).file (env.inZone z)
    (localFileAddr ++ url) = q := ⟨_, rfl⟩
  have ho : outcome (env.inZone z) u body = some (code, b) := by
    unfold outcome
    dsimp only
    rw [hh.reading]
    dsimp only
    rw [if_neg (by decide), if_pos hfit, hfile]
  have hm : b.method = .head := by
    have hkeep : (((new u).asked.body (env.inZone z) body).file (env.inZone z)
      (localFileAddr ++ url)).2.method = _ := Asked.file_method
    rw [hfile] at hkeep
    exact hkeep.trans (Asked.body_method rfl hh.reading)
  have hstat : b.stat = st := by
    have hkeep : (((new u).asked.body (env.inZone z) body).file (env.inZone z)
      (localFileAddr ++ url)).2.stat = st := Asked.file_stat hst
    rw [hfile] at hkeep
    exact hkeep
  obtain ⟨r, hr⟩ := exists_reply hdr hh.room ho fun hget => by cases hget.symm.trans hm
  have hv := lastModified_of_head (Env.plainTimes_inZone ht z) hh.room hm ho hr
  have htext : (env.inZone z).strtime b.stat.stMtime = z.timeTConvertStrtime st.stMtime := by
    rw [hstat]
    exact if_pos hin
  rw [htext, Zone.skipBlank_text hin] at hv
  exact ⟨r, _, hr, hv, revalidates_text hin hfit⟩

/-- A world with one file, of the second day of 1970. -/
def secondDay : Env := { Env.tenBytes with stat := fun _ => some ⟨10, 86400, false, true⟩ }

/-- In an hour of summer time a change within the hour is not seen. -/
theorem revalidated_secondDay :
    let z : Zone := ⟨3600, 3600, fun _ => true⟩
    ∃ r v, (new .zero).business (secondDay.inZone z) (List.replicate 8 0)
        (requestBody (ascii "HEAD http://h/x HTTP/1.1") [ascii "Host: h"]) = .ok r ∧
      r.lastModified = some v ∧ Revalidates z v (ascii "/x") 90000 :=
  revalidated_iff ⟨3600, 3600, fun _ => true⟩ secondDay plainTimes_tenBytes .zero _ _ _ _
    ⟨10, 86400, false, true⟩
    { plain := by decide
      line := by decide +kernel
      headers := by
        simp only [accepted_iff]
        decide +kernel
      names := by decide +kernel
      room := by decide +kernel }
    (by decide) rfl (by decide +kernel)

end HttpServer

end ServerNginx
