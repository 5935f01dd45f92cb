import ServerNginx.Http.Outcome

set_option autoImplicit false

/-!
# Bodies that start with a method token

`tok ++ rest` is a body with the method token `tok`, where `Ends rest`. Two bodies with the same
`rest` differ in the token alone.

* `requestLine_append`: the path and the version of a request line do not depend on the token;
* **`reading_append`**: a body that is read as a request for a path is read so with a longer token;
* `body_append`: nor do the members the headers set.
-/

namespace ServerNginx

open CString

variable {name tok tok' rest s l : List UInt8} {old m m' : Method} {url : List UInt8}

/-! ## Tokens -/

/-- `tok` spells `name`, in any case. -/
def Spells (name tok : List UInt8) : Prop := strcaseeq tok name = true

/-- The token ends where `rest` starts. -/
def Ends (rest : List UInt8) : Prop := ∀ c ∈ rest.head?, c ∈ blank ∨ isEol c = true ∨ c = 0

instance (name tok : List UInt8) : Decidable (Spells name tok) :=
  inferInstanceAs (Decidable (_ = _))

instance (rest : List UInt8) : Decidable (Ends rest) :=
  have := List.decidableBAll (fun c => c ∈ blank ∨ isEol c = true ∨ c = 0) (rest.take 1)
  decidable_of_iff (∀ c ∈ rest.take 1, c ∈ blank ∨ isEol c = true ∨ c = 0) (by
    unfold Ends
    cases rest <;> simp)

/-- A word without blanks, line ends and NULs. -/
def Token (tok : List UInt8) : Prop := ∀ c ∈ tok, c ∉ blank ∧ isEol c = false ∧ c ≠ 0

instance (tok : List UInt8) : Decidable (Token tok) :=
  List.decidableBAll (fun c => c ∉ blank ∧ isEol c = false ∧ c ≠ 0) tok

theorem Spells.token (h : Spells name tok) (hname : Token (name.map tolower)) : Token tok := by
  have hmap : tok.map tolower = name.map tolower := of_decide_eq_true h
  intro c hc
  have hlower := hname (tolower c) (hmap ▸ List.mem_map_of_mem hc)
  have hself : ∀ d ∈ [(0 : UInt8), 9, 10, 13, 32], tolower d = d := by decide +kernel
  have hbad : ∀ d ∈ [(0 : UInt8), 9, 10, 13, 32], ¬ (d ∉ blank ∧ isEol d = false ∧ d ≠ 0) := by
    decide +kernel
  have hout : c ∉ [(0 : UInt8), 9, 10, 13, 32] := fun hm =>
    hbad c hm (by rw [hself c hm] at hlower; exact hlower)
  simp only [List.mem_cons, List.not_mem_nil, or_false, not_or] at hout
  simp [blank, isEol, cr, lf, hout]

theorem Spells.length (h : Spells name tok) : tok.length = name.length := by
  have hmap : tok.map tolower = name.map tolower := of_decide_eq_true h
  simpa using congrArg List.length hmap

theorem Spells.methodOf (h : Spells name tok) :
    HttpServer.methodOf tok old = HttpServer.methodOf name old := by
  have hmap : tok.map tolower = name.map tolower := of_decide_eq_true h
  have heq : ∀ t, strcaseeq tok t = strcaseeq name t := fun t => by
    unfold strcaseeq
    rw [hmap]
  simp only [HttpServer.methodOf, heq]

/-! ## The first line -/

variable (rest) in
theorem nextLine_token (ht : Token tok) : nextLine (tok ++ rest) =
    (nextLine rest).map fun p => (tok ++ p.1, p.2) := by
  have hpass : ∀ c ∈ tok, (!isEol c) = true := fun c hc => by simp [(ht c hc).2.1]
  unfold nextLine
  rw [List.dropWhile_append_of_pos hpass, List.takeWhile_append_of_pos hpass]
  split
  · split_ifs <;> rfl
  · rfl

theorem linesUpTo_congr (n : ℕ) : ∀ (m : ℕ) {b : List UInt8}, b.length ≤ n → b.length ≤ m →
    linesUpTo n b = linesUpTo m b := by
  induction n with
  | zero =>
    intro m b hn _
    obtain rfl := List.length_eq_zero_iff.mp (Nat.le_zero.mp hn)
    cases m <;> rfl
  | succ n ih =>
    intro m b hn hm
    cases hb : nextLine b with
    | none => cases m <;> simp [linesUpTo, hb]
    | some p =>
      obtain ⟨l, r⟩ := p
      have hlen := HttpServer.nextLine_length hb
      obtain ⟨m, rfl⟩ : ∃ k, m = k + 1 := ⟨m - 1, by omega⟩
      simp only [linesUpTo, hb]
      rw [ih m (by omega) (by omega)]

theorem lines_token (ht : Token tok) : lines (tok ++ rest) =
    match nextLine rest with
    | none => []
    | some (l, r) => (tok ++ l) :: lines r := by
  have hn := nextLine_token rest ht
  cases hr : nextLine rest with
  | none =>
    rw [hr] at hn
    cases hl : (tok ++ rest).length <;> simp [lines, hl, linesUpTo, hn]
  | some p =>
    obtain ⟨l, r⟩ := p
    rw [hr] at hn
    have hlen := HttpServer.nextLine_length hr
    obtain ⟨n, hl⟩ : ∃ n, (tok ++ rest).length = n + 1 := ⟨(tok ++ rest).length - 1, by
      rw [List.length_append]
      omega⟩
    rw [List.length_append] at hl
    simp only [lines, List.length_append, hl, linesUpTo, hn, Option.map_some]
    rw [linesUpTo_congr n r.length (by omega) le_rfl]

theorem lineText_token (ht : Token tok) : lineText (tok ++ l) = tok ++ lineText l :=
  List.takeWhile_append_of_pos fun c hc => by simpa using (ht c hc).2.2

theorem lineText_ends {r : List UInt8} (he : Ends rest) (hn : nextLine rest = some (l, r)) :
    lineText l = [] ∨ ∃ b s, b ∈ blank ∧ lineText l = b :: s := by
  obtain ⟨rfl, hl⟩ := nextLine_eq_some hn
  cases l with
  | nil => exact Or.inl rfl
  | cons c l =>
    rcases he c rfl with hb | heol | rfl
    · have hne : c ≠ 0 := by
        rintro rfl
        exact absurd hb (by decide)
      refine Or.inr ⟨c, lineText l, hb, ?_⟩
      rw [lineText, List.takeWhile_cons_of_pos (by simpa using hne)]
      rfl
    · rw [hl c List.mem_cons_self] at heol
      cases heol
    · exact Or.inl rfl

/-! ## The request line -/

/-- The path in what follows the token of a request line and a blank. -/
def requestPath (s : List UInt8) : Option (List UInt8) :=
  let rest := skipBlank s
  (strpbrk rest blank).bind fun j =>
    if strcaseeq (skipBlank (rest.drop (j + 1))) (ascii "HTTP/1.1") ∧
        strncaseeq (rest.take j) (ascii "http://") 7 then
      (strchr ((rest.take j).drop 7) 47).map fun k => ((rest.take j).drop 7).drop k
    else none

theorem strpbrk_token (ht : Token tok) : strpbrk tok blank = none :=
  List.findIdx?_eq_none_iff.mpr fun c hc => by simpa using (ht c hc).1

theorem strpbrk_token_blank (ht : Token tok) {b : UInt8} (hb : b ∈ blank) :
    strpbrk (tok ++ b :: s) blank = some tok.length := by
  have hnone := strpbrk_token ht
  unfold strpbrk at hnone ⊢
  rw [List.findIdx?_append, hnone]
  simp [List.findIdx?_cons, hb]

/-- **The path of a request line** does not depend on the method token. -/
theorem requestLine_append (ht : Token tok) {b : UInt8} (hb : b ∈ blank) :
    requestLine old (tok ++ b :: s) =
      (requestPath s).map fun url => (HttpServer.methodOf tok old, url) := by
  have hdrop : (tok ++ b :: s).drop (tok.length + 1) = s := by
    rw [← List.drop_drop, List.drop_left, List.drop_one, List.tail_cons]
  rw [requestLine, requestPath, strpbrk_token_blank ht hb]
  simp only [Option.bind_some, hdrop, List.take_left]
  cases strpbrk (skipBlank s) blank with
  | none => rfl
  | some j =>
    simp only [Option.bind_some]
    split_ifs
    · rw [Option.map_map]
      rfl
    · rfl

theorem requestLine_token (ht : Token tok) : requestLine old tok = none := by
  rw [requestLine, strpbrk_token ht]
  rfl

/-! ## The lines behind it -/

theorem readContent_add {len pos d : ℕ} {n : ℤ} (hlen : len + d < 2 ^ 31)
    {ls : List (List UInt8)} (h : readContent len (.request m url) n pos ls = .request m url) :
    readContent (len + d) (.request m' url) n (pos + d) ls = .request m' url := by
  cases ls with
  | nil => cases h
  | cons l ls =>
    rw [readContent] at h ⊢
    have hshift : pos + d + l.length + 2 = pos + l.length + 2 + d := by omega
    rw [hshift]
    split_ifs at h with hint hfit
    · rw [if_neg (by omega), if_pos (by omega)]
    · exact absurd h (readContent_ne_request ls (by omega))

theorem readHeaders_add {len d : ℕ} (hlen : len + d < 2 ^ 31) (ls : List (List UInt8)) :
    ∀ {n : ℤ} {pos : ℕ}, readHeaders len (.request m url) n pos ls = .request m url →
      readHeaders (len + d) (.request m' url) n (pos + d) ls = .request m' url := by
  induction ls with
  | nil => exact fun h => nomatch h
  | cons l ls ih =>
    intro n pos h
    have hshift : pos + d + l.length + 2 = pos + l.length + 2 + d := by omega
    rw [readHeaders] at h ⊢
    rw [hshift]
    split_ifs at h ⊢
    · exact readContent_add hlen h
    · rfl
    · exact ih h

/-- **Another token**, which may be longer, makes a request with another method and the same path
of a body that is read as a request. -/
theorem reading_append {d : ℕ} (ht : Token tok) (ht' : Token tok') (he : Ends rest)
    (hlen : tok'.length = tok.length + d) (hroom : (tok' ++ rest).length < 2 ^ 31)
    (h : reading (tok ++ rest) = .request m url) :
    reading (tok' ++ rest) = .request (HttpServer.methodOf tok' .get) url := by
  rw [reading, lines_token ht] at h
  rw [reading, lines_token ht']
  cases hn : nextLine rest with
  | none =>
    rw [hn] at h
    cases h
  | some p =>
    obtain ⟨l, r⟩ := p
    rw [hn] at h
    dsimp only at h ⊢
    rw [lineText_token ht] at h
    rw [lineText_token ht']
    rcases lineText_ends he hn with hnil | ⟨b, s, hb, hline⟩
    · rw [hnil, List.append_nil, requestLine_token ht] at h
      cases h
    · rw [hline, requestLine_append ht hb] at h
      rw [hline, requestLine_append ht' hb]
      cases hpath : requestPath s with
      | none =>
        rw [hpath] at h
        cases h
      | some path =>
        rw [hpath] at h
        simp only [Option.map_some] at h ⊢
        have hreq := readHeaders_request _ _ _ h
        cases hreq
        have hlen₁ : (tok' ++ rest).length = (tok ++ rest).length + d := by
          rw [List.length_append, List.length_append]
          omega
        have hpos : (tok' ++ l).length + 2 = (tok ++ l).length + 2 + d := by
          rw [List.length_append, List.length_append]
          omega
        rw [hlen₁, hpos]
        exact readHeaders_add (by omega) _ h

/-! ## What the headers set -/

namespace Asked

variable {env : Env} {a : Asked}

/-- The members that header lines set. -/
def fromHeaders (a : Asked) : Asked := { a with method := .get, stat := ⟨0, 0, false, false⟩ }

theorem value_fromHeaders (v : List UInt8) :
    (a.value env name v).fromHeaders = a.fromHeaders.value env name v := by
  unfold Asked.value Asked.length Asked.range
  dsimp only
  split_ifs
  · split <;> rfl
  · split
    · rfl
    · split <;> rfl
  all_goals rfl

theorem line_fromHeaders (t : List UInt8) :
    (a.line env t).fromHeaders = a.fromHeaders.line env t := by
  unfold Asked.line
  split
  · rfl
  · exact value_fromHeaders _

theorem headers_fromHeaders (ls : List (List UInt8)) : ∀ a : Asked,
    (a.headers env ls).fromHeaders = a.fromHeaders.headers env ls := by
  induction ls with
  | nil => exact fun _ => rfl
  | cons l ls ih =>
    intro a
    rw [Asked.headers, Asked.headers]
    split_ifs
    · rfl
    · exact line_fromHeaders _
    · rw [ih, line_fromHeaders]

/-- **Another token** does not change what the headers set. -/
theorem body_append {b : Asked} (ht : Token tok) (ht' : Token tok') (he : Ends rest)
    (ha : a.fromHeaders = b.fromHeaders) :
    (a.body env (tok ++ rest)).fromHeaders = (b.body env (tok' ++ rest)).fromHeaders := by
  unfold Asked.body
  rw [lines_token ht, lines_token ht']
  cases hn : nextLine rest with
  | none => exact ha
  | some p =>
    obtain ⟨l, r⟩ := p
    dsimp only
    rw [lineText_token ht, lineText_token ht']
    rcases lineText_ends he hn with hnil | ⟨c, s, hc, hline⟩
    · rw [hnil, List.append_nil, List.append_nil, requestLine_token ht, requestLine_token ht']
      exact ha
    · rw [hline, requestLine_append ht hc, requestLine_append ht' hc]
      cases requestPath s with
      | none => exact ha
      | some url =>
        simp only [Option.map_some, headers_fromHeaders]
        exact congrArg (fun a : Asked => a.headers env (lines r)) ha

variable (env) in
/-- **The method of a body** is that of its token, or the one before, and the body is bad. -/
theorem body_method_token (ht : Token tok) (he : Ends rest) (ha : a.method = .get) :
    (a.body env (tok ++ rest)).method = HttpServer.methodOf tok .get ∨
      (a.body env (tok ++ rest)).method = .get ∧ reading (tok ++ rest) = .bad := by
  unfold Asked.body reading
  rw [lines_token ht, ha]
  cases hn : nextLine rest with
  | none => exact Or.inr ⟨ha, rfl⟩
  | some p =>
    obtain ⟨l, r⟩ := p
    dsimp only
    rw [lineText_token ht]
    rcases lineText_ends he hn with hnil | ⟨c, s, hc, hline⟩
    · rw [hnil, List.append_nil, requestLine_token ht]
      refine Or.inr ⟨?_, rfl⟩
      rw [Asked.request, Asked.requestMethod, strpbrk_token ht]
      exact ha
    · have hmethod : (a.request (tok ++ c :: s)).method = HttpServer.methodOf tok .get := by
        rw [Asked.request, Asked.requestMethod, strpbrk_token_blank ht hc, ha]
        simp only [List.take_left]
      rw [hline, requestLine_append ht hc]
      cases requestPath s with
      | none => exact Or.inl hmethod
      | some url => exact Or.inl ((headers_method _ _).trans hmethod)

end Asked

end ServerNginx
