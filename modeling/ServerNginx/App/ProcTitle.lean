import ServerNginx.Lib.Block
import ServerNginx.Lib.CString
import ServerNginx.Lib.Run

set_option autoImplicit false

/-!
# The title of the process

`ngx_init_setproctitle` and `ngx_setproctitle`, over the region that holds the strings of `argv` and
then those of `environ`. An access outside of the region or of `gp_envmem` has no result.

* `started_eq`: the environment is copied out of the region;
* `setproctitle_accept`, `setproctitle_overrun`: an accepted title is written, and the rest of the
  region cleared, where the strings of `argv` take no more than they did at the start;
* **`renamesRight_iff`**: titles are written inside the region exactly where every accepted one but
  the last is no longer than the original command line; `not_renamesRight` is a run of a worker.
-/

namespace ServerNginx

open CString

/-- The bytes of a C string. -/
structure CText where
  bytes : List UInt8
  noNul : 0 ∉ bytes

/-- With its NUL. -/
def CText.size (s : CText) : ℕ := s.bytes.length + 1

/-- Strings one behind the other. -/
def area (ss : List CText) : List UInt8 := ss.flatMap fun s => s.bytes ++ [0]

/-- Where the strings of an area start that starts at `p`. -/
def offsets : ℕ → List CText → List ℕ
  | _, [] => []
  | p, s :: ss => p :: offsets (p + s.size) ss

/-- The globals behind the title: the region `g_os_argv[0]` points to, the array `g_os_argv` up to
its `nullptr`, `g_environlen`, `gp_envmem` and the array `environ`, whose strings lie there. -/
structure ProcTitle where
  mem : List UInt8
  argv : List ℕ
  gEnvironlen : ℕ
  gpEnvmem : List UInt8
  environ : List ℕ

/-- The sum of `strlen + 1` over an array of strings. -/
def strsLength (mem : List UInt8) : List ℕ → Option ℕ
  | [] => some 0
  | p :: ps => do
    let s ← cstr mem p
    let n ← strsLength mem ps
    some (s.length + 1 + n)

/-- The loop that copies the strings of `environ` to `tptr`. -/
def copyEnviron (mem : List UInt8) : List UInt8 → ℕ → List ℕ → Option (List UInt8 × List ℕ)
  | envmem, _, [] => some (envmem, [])
  | envmem, tptr, p :: ps => do
    let s ← cstr mem p
    let envmem ← Block.writeAt envmem tptr (s ++ [0])
    let r ← copyEnviron mem envmem (tptr + (s.length + 1)) ps
    some (r.1, tptr :: r.2)

/-- `ngx_init_setproctitle`. -/
def ngxInitSetproctitle (mem : List UInt8) (argv environ : List ℕ) : Option ProcTitle := do
  let envirlength ← strsLength mem environ
  let r ← copyEnviron mem (List.replicate envirlength 0) 0 environ
  some ⟨mem, argv, envirlength, r.1, r.2⟩

/-- `ngx_setproctitle`; the output is the title, where it is accepted. -/
def ngxSetproctitle (s : ProcTitle) (title : CText) : Option (ProcTitle × List CText) := do
  let argvlength ← strsLength s.mem s.argv
  let esy := argvlength + s.gEnvironlen
  if esy < title.size then some (s, [])
  else do
    let tptr ← s.argv.head?
    let mem ← Block.writeAt s.mem tptr (title.bytes ++ [0])
    let mem ← Block.writeAt mem (tptr + title.size) (List.replicate (esy - title.size) 0)
    some ({ s with mem, argv := s.argv.take 1 }, [title])

/-- The string at `g_os_argv[0]`. -/
def ProcTitle.title (s : ProcTitle) : Option (List UInt8) := s.argv.head?.bind (cstr s.mem)

/-- The globals behind `ngx_init_setproctitle`, for a command line and an environment. -/
def started (argv0 : CText) (argv environ : List CText) : Option ProcTitle :=
  ngxInitSetproctitle (area (argv0 :: argv) ++ area environ) (offsets 0 (argv0 :: argv))
    (offsets (area (argv0 :: argv)).length environ)

/-- **Every call stays inside the region**, and `g_os_argv[0]` is the last title accepted. -/
def RenamesRight (argv0 : CText) (argv environ titles : List CText) : Prop :=
  ∃ s₀ s os, started argv0 argv environ = some s₀ ∧
    Run.run ngxSetproctitle s₀ titles = some (s, os) ∧
    s.title = some (os.getLast?.getD argv0).bytes

/-- The titles that fit, beside an environment of `E` bytes, where the strings of `argv` take `a`
bytes before the first of them. -/
def accepted (E : ℕ) : ℕ → List CText → List CText
  | _, [] => []
  | a, t :: ts => if a + E < t.size then accepted E a ts else t :: accepted E t.size ts

variable {A E a : ℕ} {cur t : CText} {s s' : ProcTitle} {ss titles os : List CText}

/-! ## Strings in a row -/

theorem area_cons (s : CText) (ss : List CText) : area (s :: ss) = s.bytes ++ 0 :: area ss := by
  rw [area, List.flatMap_cons, List.append_assoc]
  rfl

theorem length_area_cons (s : CText) (ss : List CText) :
    (area (s :: ss)).length = s.size + (area ss).length := by
  rw [area_cons, List.length_append, List.length_cons, CText.size]
  omega

theorem cstr_text (s : CText) (front back : List UInt8) :
    cstr (front ++ s.bytes ++ 0 :: back) front.length = some s.bytes := by
  have hself : s.bytes.takeWhile (· ≠ 0) = s.bytes :=
    List.takeWhile_eq_self_iff.mpr fun b hb => decide_eq_true fun h : b = 0 => s.noNul (h ▸ hb)
  rw [cstr_append, hself]

theorem strsLength_offsets (front back : List UInt8) (ss : List CText) :
    strsLength (front ++ area ss ++ back) (offsets front.length ss) = some (area ss).length := by
  induction ss generalizing front with
  | nil => rfl
  | cons s ss ih =>
    have hmem : front ++ area (s :: ss) ++ back = front ++ s.bytes ++ 0 :: (area ss ++ back) := by
      simp only [area_cons, List.append_assoc, List.cons_append]
    have hrest := ih (front ++ s.bytes ++ [0])
    have hlen : (front ++ s.bytes ++ [0]).length = front.length + s.size := by
      simp only [List.length_append, List.length_singleton, CText.size, Nat.add_assoc]
    have hmem' : front ++ s.bytes ++ [0] ++ area ss ++ back =
        front ++ s.bytes ++ 0 :: (area ss ++ back) := by
      simp only [List.append_assoc, List.cons_append, List.nil_append]
    rw [hlen, hmem'] at hrest
    simp only [offsets, strsLength, hmem, cstr_text, hrest, Option.bind_eq_bind, Option.bind_some,
      length_area_cons]
    rfl

theorem copyEnviron_offsets (front : List UInt8) (copied ss : List CText) :
    copyEnviron (front ++ area ss) (area copied ++ List.replicate (area ss).length 0)
        (area copied).length (offsets front.length ss) =
      some (area (copied ++ ss), offsets (area copied).length ss) := by
  induction ss generalizing front copied with
  | nil => simp [offsets, copyEnviron, area]
  | cons s ss ih =>
    have hmem : front ++ area (s :: ss) = front ++ s.bytes ++ 0 :: area ss := by
      simp only [area_cons, List.append_assoc]
    have hrest := ih (front ++ s.bytes ++ [0]) (copied ++ [s])
    have hlen : (front ++ s.bytes ++ [0]).length = front.length + s.size := by
      simp only [List.length_append, List.length_singleton, CText.size, Nat.add_assoc]
    have hmem' : front ++ s.bytes ++ [0] ++ area ss = front ++ s.bytes ++ 0 :: area ss := by
      simp only [List.append_assoc, List.cons_append, List.nil_append]
    have harea : area (copied ++ [s]) = area copied ++ (s.bytes ++ [0]) := by
      simp only [area, List.flatMap_append, List.flatMap_singleton]
    have hwrite : Block.writeAt (area copied ++ List.replicate (area (s :: ss)).length 0)
        (area copied).length (s.bytes ++ [0]) =
          some (area (copied ++ [s]) ++ List.replicate (area ss).length 0) := by
      have hsize : (s.bytes ++ [0]).length = s.size := by
        rw [List.length_append, List.length_singleton, CText.size]
      rw [Block.writeAt_append _ (by simp [hsize, length_area_cons]), harea, hsize,
        List.drop_replicate, length_area_cons, Nat.add_sub_cancel_left]
    have hcopied : (area (copied ++ [s])).length = (area copied).length + s.size := by
      simp only [harea, List.length_append, List.length_singleton, CText.size]
    rw [hlen, hmem', hcopied, List.append_assoc copied, List.singleton_append] at hrest
    rw [offsets, copyEnviron, hmem, cstr_text]
    simp only [Option.bind_eq_bind, Option.bind_some, hwrite]
    rw [show s.bytes.length + 1 = s.size from rfl, hrest, offsets]
    rfl

/-- **The environment is copied out of the region.** -/
theorem started_eq (argv0 : CText) (argv environ : List CText) : started argv0 argv environ =
    some ⟨area (argv0 :: argv) ++ area environ, offsets 0 (argv0 :: argv), (area environ).length,
      area environ, offsets 0 environ⟩ := by
  have hlen := strsLength_offsets (area (argv0 :: argv)) [] environ
  have hcopy : copyEnviron (area (argv0 :: argv) ++ area environ)
      (List.replicate (area environ).length 0) 0 (offsets (area (argv0 :: argv)).length environ) =
        some (area environ, offsets 0 environ) :=
    copyEnviron_offsets (area (argv0 :: argv)) [] environ
  rw [List.append_nil] at hlen
  simp only [started, ngxInitSetproctitle, hlen, hcopy, Option.bind_eq_bind, Option.bind_some]

/-! ## One call -/

/-- The strings of `argv` take `a` bytes of the region's `A + E`, and the first is `cur`. -/
structure Titled (A E a : ℕ) (cur : CText) (s : ProcTitle) : Prop where
  head : s.argv.head? = some 0
  len : strsLength s.mem s.argv = some a
  size : s.mem.length = A + E
  env : s.gEnvironlen = E
  cur : cstr s.mem 0 = some cur.bytes

theorem Titled.title (h : Titled A E a cur s) : s.title = some cur.bytes := by
  rw [ProcTitle.title, h.head]
  exact h.cur

theorem titled_started (argv0 : CText) (argv environ : List CText) :
    Titled (area (argv0 :: argv)).length (area environ).length (area (argv0 :: argv)).length argv0
      ⟨area (argv0 :: argv) ++ area environ, offsets 0 (argv0 :: argv), (area environ).length,
        area environ, offsets 0 environ⟩ where
  head := rfl
  len := strsLength_offsets [] (area environ) (argv0 :: argv)
  size := List.length_append
  env := rfl
  cur := by
    rw [area_cons, List.append_assoc, List.cons_append]
    exact cstr_text argv0 [] (area argv ++ area environ)

theorem setproctitle_reject (h : Titled A E a cur s) (ht : a + E < t.size) :
    ngxSetproctitle s t = some (s, []) := by
  simp only [ngxSetproctitle, h.len, h.env, Option.bind_eq_bind, Option.bind_some, if_pos ht]

/-- **An accepted title** is written, and what is left of the region is cleared. -/
theorem setproctitle_accept (h : Titled A E a cur s) (ht : t.size ≤ a + E) (ha : a ≤ A) :
    ∃ s', ngxSetproctitle s t = some (s', [t]) ∧ Titled A E t.size t s' := by
  have htext : (t.bytes ++ [0]).length = t.size := by
    rw [List.length_append, List.length_singleton, CText.size]
  have hsize := h.size
  have hcopy : Block.writeAt s.mem 0 (t.bytes ++ [0]) =
      some (t.bytes ++ [0] ++ s.mem.drop t.size) := by
    have := Block.writeAt_append (a := []) (b := s.mem) (t.bytes ++ [0]) (by omega)
    rwa [htext] at this
  have hzero : Block.writeAt (t.bytes ++ [0] ++ s.mem.drop t.size) (0 + t.size)
      (List.replicate (a + E - t.size) 0) = some (t.bytes ++ [0] ++
        (List.replicate (a + E - t.size) 0 ++ s.mem.drop (a + E))) := by
    have := Block.writeAt_append (a := t.bytes ++ [0]) (b := s.mem.drop t.size)
      (List.replicate (a + E - t.size) 0) (by simp; omega)
    rw [List.length_replicate, List.drop_drop, Nat.add_sub_cancel' ht, htext] at this
    rw [Nat.zero_add, this, List.append_assoc]
  have hcstr : cstr (t.bytes ++ [0] ++ (List.replicate (a + E - t.size) 0 ++ s.mem.drop (a + E)))
      0 = some t.bytes := by
    rw [List.append_assoc]
    exact cstr_text t [] _
  have htake : s.argv.take 1 = [0] := by
    obtain ⟨r, hr⟩ := List.head?_eq_some_iff.mp h.head
    rw [hr]
    rfl
  refine ⟨{ s with
    mem := t.bytes ++ [0] ++ (List.replicate (a + E - t.size) 0 ++ s.mem.drop (a + E))
    argv := s.argv.take 1 }, ?_, ?_⟩
  · simp only [ngxSetproctitle, h.len, h.env, h.head, hcopy, hzero, Option.bind_eq_bind,
      Option.bind_some, if_neg (Nat.not_lt.mpr ht)]
  · refine ⟨by rw [htake]; rfl, ?_, ?_, h.env, hcstr⟩
    · simp only [htake, strsLength, hcstr, Option.bind_eq_bind, Option.bind_some, Nat.add_zero]
      rfl
    · simp only [List.length_append, List.length_singleton, List.length_replicate,
        List.length_drop, CText.size] at ht ⊢
      omega

/-- Where the strings of `argv` have grown, clearing runs past the end of the region. -/
theorem setproctitle_overrun (h : Titled A E a cur s) (ht : t.size ≤ a + E) (ha : A < a) :
    ngxSetproctitle s t = none := by
  have hsize := h.size
  have hover : ∀ mem : List UInt8, Block.writeAt s.mem 0 (t.bytes ++ [0]) = some mem →
      Block.writeAt mem (0 + t.size) (List.replicate (a + E - t.size) 0) = none := by
    intro mem hmem
    obtain ⟨hle, heq⟩ := Option.ite_none_right_eq_some.mp hmem
    cases heq
    refine if_neg ?_
    rw [Block.length_splice hle, List.length_replicate]
    omega
  simp only [ngxSetproctitle, h.len, h.env, h.head, Option.bind_eq_bind, Option.bind_some,
    if_neg (Nat.not_lt.mpr ht)]
  cases hmem : Block.writeAt s.mem 0 (t.bytes ++ [0]) with
  | none => rfl
  | some mem => simp only [Option.bind_some, hover mem hmem, Option.bind_none]

/-! ## Every run -/

theorem run_accepted (h : Titled A E a cur s)
    (hr : Run.run ngxSetproctitle s titles = some (s', os)) :
    os = accepted E a titles ∧ s'.title = some (os.getLast?.getD cur).bytes := by
  induction titles generalizing s a cur os with
  | nil =>
    cases hr
    exact ⟨rfl, h.title⟩
  | cons t ts ih =>
    obtain ⟨s₁, o, o', hs, hr', rfl⟩ := Run.run_cons_eq_some.mp hr
    by_cases ht : a + E < t.size
    · cases hs.symm.trans (setproctitle_reject h ht)
      rw [accepted, if_pos ht]
      exact ih h hr'
    · by_cases ha : a ≤ A
      · obtain ⟨s₂, hs₂, h₂⟩ := setproctitle_accept h (Nat.not_lt.mp ht) ha
        cases hs.symm.trans hs₂
        obtain ⟨ho, htitle⟩ := ih h₂ hr'
        rw [accepted, if_neg ht, ← ho, htitle, List.singleton_append, List.getLast?_cons]
        exact ⟨rfl, rfl⟩
      · rw [setproctitle_overrun h (Nat.not_lt.mp ht) (Nat.not_le.mp ha)] at hs
        cases hs

variable (titles) in
/-- Nothing may be accepted behind a title longer than the command line. -/
theorem exists_run_iff (h : Titled A E a cur s) :
    (∃ r, Run.run ngxSetproctitle s titles = some r) ↔
      (A < a → accepted E a titles = []) ∧ ∀ t ∈ (accepted E a titles).dropLast, t.size ≤ A := by
  induction titles generalizing s a cur with
  | nil => exact iff_of_true ⟨_, rfl⟩ ⟨fun _ => rfl, nofun⟩
  | cons t ts ih =>
    by_cases ht : a + E < t.size
    · rw [accepted, if_pos ht, ← ih h]
      simp [Run.run, setproctitle_reject h ht]
    · rw [accepted, if_neg ht]
      by_cases ha : a ≤ A
      · obtain ⟨s₂, hs₂, h₂⟩ := setproctitle_accept h (Nat.not_lt.mp ht) ha
        have hrun : (∃ r, Run.run ngxSetproctitle s (t :: ts) = some r) ↔
            ∃ r, Run.run ngxSetproctitle s₂ ts = some r := by
          simp [Run.run, hs₂]
        rw [hrun, ih h₂]
        cases hacc : accepted E t.size ts with
        | nil => simp [Nat.not_lt.mpr ha]
        | cons u us => simp [Nat.not_lt.mpr ha]
      · have hrun : Run.run ngxSetproctitle s (t :: ts) = none := by
          rw [Run.run, setproctitle_overrun h (Nat.not_lt.mp ht) (Nat.not_le.mp ha)]
          rfl
        simp [hrun, Nat.not_le.mp ha]

/-- **Renaming stays inside its memory**, and shows the last title accepted, if and only if every
accepted title but the last is no longer than the original command line. -/
theorem renamesRight_iff (argv0 : CText) (argv environ titles : List CText) :
    RenamesRight argv0 argv environ titles ↔
      ∀ t ∈ (accepted (area environ).length (area (argv0 :: argv)).length titles).dropLast,
        t.size ≤ (area (argv0 :: argv)).length := by
  have h := titled_started argv0 argv environ
  have hiff := exists_run_iff titles h
  simp only [lt_irrefl, false_imp_iff, true_and] at hiff
  rw [← hiff]
  constructor
  · rintro ⟨s₀, s, os, hs₀, hr, -⟩
    cases hs₀.symm.trans (started_eq argv0 argv environ)
    exact ⟨_, hr⟩
  · rintro ⟨⟨s, os⟩, hr⟩
    exact ⟨_, s, os, started_eq argv0 argv environ, hr, (run_accepted h hr).2⟩

/-- **The region is left**: the command line takes 8 bytes, the titles of the master and of its
worker 20. -/
theorem not_renamesRight :
    ¬ ∀ argv0 argv environ titles, RenamesRight argv0 argv environ titles := by
  intro h
  obtain ⟨s₀, s, os, hs₀, hr, -⟩ := h ⟨ascii "./nginx", by decide⟩ []
    [⟨ascii "HOME=/root", by decide⟩, ⟨ascii "PATH=/bin", by decide⟩]
    [⟨ascii "master process test", by decide⟩, ⟨ascii "worker process test", by decide⟩]
  cases hs₀.symm.trans (started_eq _ _ _)
  obtain ⟨-, hlast⟩ := (exists_run_iff _ (titled_started _ _ _)).mp ⟨_, hr⟩
  exact absurd hlast (by decide)

end ServerNginx
