import ServerNginx.Net.Response

set_option autoImplicit false

/-!
# What the TLS writer reports

`HttpsWriteData` calls `Write` on every segment of `m_iov`, whatever the calls before have returned,
and adds the results up. `Reports` is what its caller needs of a count.

* `callsFrom`: the calls it makes;
* `httpsWriteLoop_full`: as long as whole segments are accepted, the sum is their length;
* **`reports_iff`**: exactly when the count is to be relied on.
-/

namespace ServerNginx

/-- A call `Write(m_iov[seg].iov_base, len)` and its result: the number of bytes accepted, or a
value that is not positive. -/
structure WriteCall where
  seg : ℕ
  len : ℕ
  ret : ℤ
  deriving DecidableEq, Repr

namespace WriteCall

variable (c : WriteCall)

/-- The bytes that the call has accepted. -/
def bytes : List RespByte := (List.range c.ret.toNat).map (.iov c.seg)

/-- The whole segment is accepted. -/
def Full : Prop := c.ret = c.len

/-- Nothing is accepted of a segment, and something should have been. -/
def Failed : Prop := c.ret ≤ 0 ∧ c.ret < c.len

end WriteCall

namespace HttpsServer

/-- `int` addition; `none` where it overflows. -/
def addInt (a b : ℤ) : Option ℤ := if -2 ^ 31 ≤ a + b ∧ a + b < 2 ^ 31 then some (a + b) else none

variable (write : ℕ → ℤ)

/-- The loop of `HttpsWriteData` over the segments from `m_iov[i]` on; `write i` is what `Write`
returns for `m_iov[i]`. -/
def httpsWriteLoop : List Iovec → ℕ → ℤ → Option (ℤ × List WriteCall)
  | [], _, count => some (count, [])
  | v :: iov, i, count =>
    (addInt count (write i)).bind fun count =>
      (httpsWriteLoop iov (i + 1) count).map fun r => (r.1, ⟨i, v.iovLen, write i⟩ :: r.2)

/-- `HttpsWriteData` up to the `munmap`: what it returns, and the calls it has made. -/
def httpsWriteData (iov : List Iovec) : Option (ℤ × List WriteCall) := httpsWriteLoop write iov 0 0

/-- The bytes of segments that begin with `m_iov[i]`. -/
def bytesFrom : ℕ → List Iovec → List RespByte
  | _, [] => []
  | i, v :: iov => (List.range v.iovLen).map (.iov i) ++ bytesFrom (i + 1) iov

/-- **A count that tells what was written**: a positive one is the number of bytes accepted, and
they are the first of all; if there are none because of a failure, it is `-1`; behind a call that
failed or was cut short there is no other. -/
structure Reports (iov : List Iovec) (count : ℤ) (calls : List WriteCall) : Prop where
  counted : 0 < count → calls.flatMap WriteCall.bytes = (bytesFrom 0 iov).take count.toNat ∧
    (calls.flatMap WriteCall.bytes).length = count.toNat
  failed : calls.flatMap WriteCall.bytes = [] → (∃ c ∈ calls, c.Failed) → count = -1
  stops : calls.Pairwise fun c _ => c.Full

/-- The sum does not overflow, and the count tells what was written. -/
def WritesRight (iov : List Iovec) : Prop :=
  ∃ count calls, httpsWriteData write iov = some (count, calls) ∧ Reports iov count calls

/-- Results `Write` can have: at most the length of the segment, and an `int`. -/
def Accepts (iov : List Iovec) : Prop :=
  ∀ i v, iov[i]? = some v → write i ≤ v.iovLen ∧ -2 ^ 31 ≤ write i ∧ write i < 2 ^ 31

/-! ## The calls -/

/-- The calls for segments that begin with `m_iov[i]`. -/
def callsFrom : ℕ → List Iovec → List WriteCall
  | _, [] => []
  | i, v :: iov => ⟨i, v.iovLen, write i⟩ :: callsFrom (i + 1) iov

/-- The whole segments are accepted. -/
def AllFull (i : ℕ) (iov : List Iovec) : Prop :=
  ∀ j v, iov[j]? = some v → write (i + j) = v.iovLen

variable {write} {iov : List Iovec} {v : Iovec} {i : ℕ} {count n : ℤ} {calls : List WriteCall}

theorem allFull_cons : AllFull write i (v :: iov) ↔
    write i = v.iovLen ∧ AllFull write (i + 1) iov := by
  constructor
  · intro h
    refine ⟨h 0 v rfl, fun j u hj => ?_⟩
    rw [show i + 1 + j = i + (j + 1) by omega]
    exact h (j + 1) u hj
  · rintro ⟨h₀, h⟩ j u hj
    cases j with
    | zero =>
      cases hj
      exact h₀
    | succ j =>
      rw [show i + (j + 1) = i + 1 + j by omega]
      exact h j u hj

theorem httpsWriteLoop_calls (h : httpsWriteLoop write iov i count = some (n, calls)) :
    calls = callsFrom write i iov := by
  induction iov generalizing i count calls with
  | nil =>
    cases h
    rfl
  | cons v iov ih =>
    obtain ⟨m, -, h⟩ := Option.bind_eq_some_iff.mp h
    obtain ⟨⟨n', calls'⟩, hr, he⟩ := Option.map_eq_some_iff.mp h
    cases he
    rw [ih hr]
    rfl

theorem full_of_mem_callsFrom : (∀ c ∈ callsFrom write i iov, c.Full) ↔ AllFull write i iov := by
  induction iov generalizing i with
  | nil => simp [callsFrom, AllFull]
  | cons v iov ih =>
    rw [allFull_cons, ← ih, callsFrom, List.forall_mem_cons]
    rfl

/-- **Full calls accept the bytes of their segments.** -/
theorem bytes_callsFrom (h : AllFull write i iov) :
    (callsFrom write i iov).flatMap WriteCall.bytes = bytesFrom i iov := by
  induction iov generalizing i with
  | nil => rfl
  | cons v iov ih =>
    obtain ⟨h₀, h⟩ := allFull_cons.mp h
    rw [callsFrom, List.flatMap_cons, ih h, bytesFrom, WriteCall.bytes, h₀, Int.toNat_natCast]

theorem length_bytesFrom : (bytesFrom i iov).length = (iov.map Iovec.iovLen).sum := by
  induction iov generalizing i with
  | nil => rfl
  | cons v iov ih => simp [bytesFrom, ih]

theorem bytesFrom_append (js : List Iovec) : bytesFrom i (iov ++ js) =
    bytesFrom i iov ++ bytesFrom (i + iov.length) js := by
  induction iov generalizing i with
  | nil => rfl
  | cons v iov ih =>
    rw [List.cons_append, bytesFrom, ih, bytesFrom, List.append_assoc, List.length_cons,
      show i + 1 + iov.length = i + (iov.length + 1) by omega]

/-! ## The sum -/

theorem addInt_eq_some {a b : ℤ} : addInt a b = some n ↔
    n = a + b ∧ -2 ^ 31 ≤ n ∧ n < 2 ^ 31 := by
  unfold addInt
  split_ifs with h
  · rw [Option.some.injEq]
    omega
  · simp only [false_iff]
    omega

theorem httpsWriteLoop_append (js : List Iovec) : httpsWriteLoop write (iov ++ js) i count =
    (httpsWriteLoop write iov i count).bind fun r =>
      (httpsWriteLoop write js (i + iov.length) r.1).map fun q => (q.1, r.2 ++ q.2) := by
  induction iov generalizing i count with
  | nil => simp [httpsWriteLoop]
  | cons v iov ih =>
    rw [List.cons_append, httpsWriteLoop, httpsWriteLoop, List.length_cons,
      show i + (iov.length + 1) = i + 1 + iov.length by omega]
    cases addInt count (write i) with
    | none => rfl
    | some m =>
      rw [Option.bind_some, Option.bind_some, ih]
      cases httpsWriteLoop write iov (i + 1) m with
      | none => rfl
      | some r =>
        simp only [Option.bind_some, Option.map_some, Option.map_map]
        rfl

/-- **Whole segments add up to their length**, as long as it is an `int`. -/
theorem httpsWriteLoop_full (h : AllFull write i iov) (hlo : 0 ≤ count) (hhi : count < 2 ^ 31) :
    (httpsWriteLoop write iov i count).map Prod.fst =
      if count + (iov.map Iovec.iovLen).sum < 2 ^ 31
        then some (count + (iov.map Iovec.iovLen).sum) else none := by
  induction iov generalizing i count with
  | nil =>
    rw [List.map_nil, List.sum_nil, Nat.cast_zero, add_zero, if_pos hhi]
    rfl
  | cons v iov ih =>
    obtain ⟨h₀, h⟩ := allFull_cons.mp h
    rw [httpsWriteLoop, h₀, List.map_cons, List.sum_cons, Nat.cast_add, ← add_assoc]
    by_cases hroom : count + v.iovLen < 2 ^ 31
    · have hadd : addInt count v.iovLen = some (count + v.iovLen) :=
        addInt_eq_some.mpr ⟨rfl, by omega, hroom⟩
      rw [hadd, Option.bind_some, Option.map_map, ← ih h (by omega) hroom]
      rfl
    · have hadd : addInt count v.iovLen = none := if_neg fun hr => hroom hr.2
      rw [hadd, if_neg (by omega)]
      rfl

/-! ## Reports -/

/-- The segments but the last are accepted whole; the last call may accept less, if it does not take
from a positive count, and says `-1` where nothing is accepted at all. -/
def TellsAll (write : ℕ → ℤ) (iov : List Iovec) : Prop :=
  ∀ as v, iov = as ++ [v] → AllFull write 0 as ∧
    let sent : ℤ := (as.map Iovec.iovLen).sum
    let ret := write as.length
    sent < 2 ^ 31 ∧ sent + ret < 2 ^ 31 ∧ (0 < sent + ret → 0 ≤ ret) ∧
      (sent = 0 → ret ≤ 0 → ret < v.iovLen → ret = -1)

theorem pairwise_append_singleton {c : WriteCall} {cs : List WriteCall} :
    ((cs ++ [c]).Pairwise fun c _ => c.Full) ↔ ∀ c ∈ cs, c.Full := by
  rw [List.pairwise_append]
  constructor
  · rintro ⟨-, -, h⟩ d hd
    exact h d hd c (List.mem_singleton_self c)
  · intro h
    exact ⟨List.Pairwise.imp_of_mem (fun hd _ _ => h _ hd) (List.pairwise_of_forall fun _ _ =>
      trivial), List.pairwise_singleton _ _, fun d hd _ _ => h d hd⟩

theorem httpsWriteData_append_singleton {as : List Iovec} :
    httpsWriteData write (as ++ [v]) = some (count, calls) ↔
      ∃ m, httpsWriteData write as = some (m, callsFrom write 0 as) ∧
        addInt m (write as.length) = some count ∧
        calls = callsFrom write 0 as ++ [⟨as.length, v.iovLen, write as.length⟩] := by
  rw [httpsWriteData, httpsWriteLoop_append, Nat.zero_add]
  constructor
  · intro h
    obtain ⟨⟨m, cs⟩, hm, h⟩ := Option.bind_eq_some_iff.mp h
    obtain ⟨⟨q, cs'⟩, hq, he⟩ := Option.map_eq_some_iff.mp h
    obtain ⟨q', hadd, hq⟩ := Option.bind_eq_some_iff.mp hq
    cases hq
    cases he
    obtain rfl := httpsWriteLoop_calls hm
    exact ⟨m, hm, hadd, rfl⟩
  · rintro ⟨m, hm, hadd, rfl⟩
    rw [httpsWriteData] at hm
    rw [hm, Option.bind_some, httpsWriteLoop, hadd]
    rfl

theorem bytes_append_singleton {as : List Iovec} {ret : ℤ} (h : AllFull write 0 as) :
    (callsFrom write 0 as ++ [(⟨as.length, v.iovLen, ret⟩ : WriteCall)]).flatMap WriteCall.bytes =
      bytesFrom 0 as ++ (List.range ret.toNat).map (.iov as.length) := by
  rw [List.flatMap_append, bytes_callsFrom h, List.flatMap_singleton, WriteCall.bytes]

theorem take_bytesFrom {as : List Iovec} {ret : ℤ} (hret : ret ≤ v.iovLen) (hpos : 0 ≤ ret) :
    (bytesFrom 0 (as ++ [v])).take ((as.map Iovec.iovLen).sum + ret).toNat =
      bytesFrom 0 as ++ (List.range ret.toNat).map (.iov as.length) := by
  have hcut : ((as.map Iovec.iovLen).sum + ret).toNat = (bytesFrom 0 as).length + ret.toNat := by
    rw [length_bytesFrom]
    omega
  rw [bytesFrom_append, hcut, List.take_length_add_append]
  simp only [bytesFrom, List.append_nil, ← List.map_take, List.take_range, Nat.zero_add]
  rw [Nat.min_eq_left (by omega)]

/-- **Exactly when the TLS writer reports what it wrote.** -/
theorem reports_iff (write : ℕ → ℤ) (iov : List Iovec) (hw : Accepts write iov) :
    WritesRight write iov ↔ TellsAll write iov := by
  rcases List.eq_nil_or_concat iov with rfl | ⟨as, v, rfl⟩
  · refine iff_of_true ⟨0, [], rfl, nofun, ?_, List.Pairwise.nil⟩ ?_
    · rintro - ⟨c, hc, -⟩
      cases hc
    · intro as v h
      simp at h
  rw [List.concat_eq_append] at *
  obtain ⟨hret, hlo, -⟩ := hw as.length v (by simp)
  have hlen : ∀ ret : ℤ, AllFull write 0 as →
      ((callsFrom write 0 as ++ [(⟨as.length, v.iovLen, ret⟩ : WriteCall)]).flatMap
        WriteCall.bytes).length = (as.map Iovec.iovLen).sum + ret.toNat := fun _ h => by
    rw [bytes_append_singleton h, List.length_append, length_bytesFrom, List.length_map,
      List.length_range]
  constructor
  · rintro ⟨count, calls, hrun, hrep⟩ as' v' heq
    obtain ⟨rfl, hv⟩ := List.append_inj' heq rfl
    cases hv
    obtain ⟨m, hm, hadd, rfl⟩ := httpsWriteData_append_singleton.mp hrun
    have hfull : AllFull write 0 as :=
      full_of_mem_callsFrom.mp (pairwise_append_singleton.mp hrep.stops)
    have hsum := httpsWriteLoop_full hfull le_rfl (by norm_num)
    rw [← httpsWriteData, hm, Option.map_some, zero_add] at hsum
    split_ifs at hsum with hroom
    obtain rfl := Option.some.inj hsum
    obtain ⟨rfl, -, hhi⟩ := addInt_eq_some.mp hadd
    refine ⟨hfull, hroom, hhi, fun hpos => ?_, fun hsent hle hlt => ?_⟩
    · have hcount := (hrep.counted hpos).2
      rw [hlen _ hfull] at hcount
      omega
    · have hnone := List.eq_nil_of_length_eq_zero ((hlen (write as.length) hfull).trans
        (by omega))
      have hfailed := hrep.failed hnone ⟨_, List.mem_append_right _ (List.mem_singleton_self _),
        hle, hlt⟩
      omega
  · intro htell
    obtain ⟨hfull, hroom, hhi, hneg, hfail⟩ := htell as v rfl
    have hsum := httpsWriteLoop_full hfull le_rfl (by norm_num : (0 : ℤ) < 2 ^ 31)
    rw [← httpsWriteData, zero_add, if_pos hroom] at hsum
    obtain ⟨⟨m, cs⟩, hm, rfl⟩ := Option.map_eq_some_iff.mp hsum
    obtain rfl := httpsWriteLoop_calls hm
    refine ⟨_, _, httpsWriteData_append_singleton.mpr ⟨_, hm, addInt_eq_some.mpr ⟨rfl, ?_, hhi⟩,
      rfl⟩, fun hpos => ⟨?_, ?_⟩, fun hnone => ?_, ?_⟩
    · omega
    · rw [bytes_append_singleton hfull]
      exact (take_bytesFrom hret (hneg hpos)).symm
    · have := hneg hpos
      rw [hlen _ hfull]
      omega
    · rintro ⟨c, hc, hle, hlt⟩
      have hzero := congrArg List.length hnone
      rw [hlen _ hfull, List.length_nil] at hzero
      have hlast : write as.length ≤ 0 ∧ write as.length < v.iovLen := by
        rcases List.mem_append.mp hc with hc | hc
        · exact absurd (full_of_mem_callsFrom.mpr hfull c hc) hlt.ne
        · rw [List.mem_singleton.mp hc] at hle hlt
          exact ⟨hle, hlt⟩
      have := hfail (by omega) hlast.1 hlast.2
      omega
    · exact pairwise_append_singleton.mpr (full_of_mem_callsFrom.mpr hfull)

/-- A head of 3 bytes and a file of 5, of which 2 are accepted. -/
theorem reports_cut_short : WritesRight (fun i => if i = 0 then 3 else 2)
    [⟨.unset, 3⟩, ⟨.unset, 5⟩] := by
  refine (reports_iff _ _ fun i v h => ?_).mpr fun as v h => ?_
  · match i, h with
    | 0, h => cases h; exact ⟨by decide, by decide, by decide⟩
    | 1, h => cases h; exact ⟨by decide, by decide, by decide⟩
  · have h : [(⟨.unset, 3⟩ : Iovec)] ++ [⟨.unset, 5⟩] = as ++ [v] := h
    obtain ⟨rfl, hv⟩ := List.append_inj' h rfl
    cases hv
    refine ⟨fun j u hj => ?_, by decide, by decide, by decide, by decide⟩
    match j, hj with
    | 0, hj => cases hj; rfl

/-- **A head that is not sent**: the connection fails at the first call, the second is made anyway,
and the sum of the two values `-1` tells its caller nothing. -/
theorem not_writesRight : ¬ ∀ (write : ℕ → ℤ) (iov : List Iovec), Accepts write iov →
    WritesRight write iov := by
  intro h
  have hw : Accepts (fun _ => -1) [⟨.unset, 3⟩, ⟨.unset, 5⟩] := fun i v _ =>
    ⟨by simp only; omega, by norm_num, by norm_num⟩
  obtain ⟨count, calls, hrun, hrep⟩ := h _ _ hw
  obtain rfl := httpsWriteLoop_calls hrun
  exact absurd hrep.stops (by simp [callsFrom, WriteCall.Full])

end HttpsServer

end ServerNginx
