import BeaconReplay.Proofs.Url.Appended
import BeaconReplay.Proofs.Url.Sites

/-!
# Hosts and ports with blanks behind them

Blanks that stand behind a URL are dropped, but they become part of its host or of its port where
another text follows. A port does not take them, and no host of a special scheme does. The host of
another scheme takes control characters.
-/
namespace BeaconReplay.Url

open Host (isBlank ne_of_isBlank)

variable {scheme : String} {special credentials : Bool} {cs ds host blanks authority : List Char}

/-! ## Credentials and ports -/

theorem behindCredentials_append (h : '@' ∉ blanks) (cs : List Char) :
    behindCredentials (cs ++ blanks) =
      ((behindCredentials cs).1, (behindCredentials cs).2 ++ blanks) := by
  have hstop : ∀ x ∈ blanks.reverse, (x != '@') = true := by
    intro x hx
    rw [bne_iff_ne]
    rintro rfl
    exact h (List.mem_reverse.1 hx)
  simp [behindCredentials, List.takeWhile_append_of_pos hstop, h]

/-- Nothing stands behind credentials that end a text. -/
theorem eq_append_of_behindCredentials (h : behindCredentials cs = (true, [])) :
    ∃ user, cs = user ++ ['@'] := by
  simp only [behindCredentials, Prod.mk.injEq, List.reverse_eq_nil_iff] at h
  obtain ⟨hat, hrest⟩ := h
  rcases List.eq_nil_or_concat' cs with rfl | ⟨user, x, rfl⟩
  · cases hat
  · by_cases hx : x = '@'
    · exact ⟨user, by rw [hx]⟩
    · simp [hx] at hrest

theorem behindCredentials_user (user : List Char) :
    behindCredentials (user ++ ['@']) = (true, []) := by
  simp [behindCredentials]

/-- A text without a port is its host. -/
theorem splitHost_cases (bracketed : Bool) (cs : List Char) :
    splitHost bracketed cs = (cs, []) ∨ ∃ host ds, splitHost bracketed cs = (host, ':' :: ds) := by
  fun_induction splitHost bracketed cs with
  | case1 => exact .inl rfl
  | case2 bracketed c cs hcolon =>
    simp only [Bool.and_eq_true, decide_eq_true_eq] at hcolon
    exact .inr ⟨[], cs, by rw [hcolon.1]⟩
  | case3 bracketed c cs hcolon host rest hsplit ih =>
    rcases ih with hall | ⟨h, ds, hport⟩
    · rw [hsplit] at hall
      cases hall
      exact .inl rfl
    · rw [hsplit] at hport
      cases hport
      exact .inr ⟨_, _, rfl⟩

/-- What stands behind a port belongs to the port. -/
theorem splitHost_append_of_port {bracketed : Bool} (h : splitHost bracketed cs = (host, ':' :: ds))
    (ys : List Char) : splitHost bracketed (cs ++ ys) = (host, ':' :: (ds ++ ys)) := by
  induction cs generalizing bracketed host with
  | nil => cases h
  | cons c cs ih =>
    rw [splitHost] at h
    rw [List.cons_append, splitHost]
    split_ifs at h ⊢ with hcolon
    · cases h
      rfl
    · simp only [Prod.mk.injEq] at h
      obtain ⟨rfl, hport⟩ := h
      rw [ih (Prod.ext rfl hport)]

/-- Blanks behind a text without a port belong to its host. -/
theorem splitHost_append {bracketed : Bool} (h : splitHost bracketed cs = (cs, []))
    (hblanks : ∀ x ∈ blanks, isBlank x = true) :
    splitHost bracketed (cs ++ blanks) = (cs ++ blanks, []) := by
  induction cs generalizing bracketed with
  | nil =>
    rw [List.nil_append]
    induction blanks generalizing bracketed with
    | nil => rfl
    | cons x blanks ih =>
      obtain ⟨hx, hblanks⟩ := List.forall_mem_cons.1 hblanks
      have hcolon : x ≠ ':' := ne_of_isBlank hx rfl
      simp [splitHost, hcolon, ih hblanks rfl]
  | cons c cs ih =>
    rw [splitHost] at h
    rw [List.cons_append, splitHost]
    split_ifs at h ⊢ with hcolon
    · cases h
    · simp only [Prod.mk.injEq, List.cons.injEq, true_and] at h
      rw [ih (Prod.ext h.1 h.2)]

theorem digits?_eq_none {base : ℕ} {x : Char} (hx : Hex.value? x = none) (hmem : x ∈ cs) :
    Host.digits? base cs = none := by
  obtain ⟨before, after, rfl⟩ := List.append_of_mem hmem
  rw [Host.digits?, List.foldlM_append]
  simp [hx]

/-- A port has no blanks. -/
theorem readPort_append (hne : blanks ≠ []) (hblanks : ∀ x ∈ blanks, isBlank x = true)
    (scheme : String) (ds : List Char) :
    readPort scheme (':' :: (ds ++ blanks)) = .error .invalidPort := by
  obtain ⟨x, hx⟩ := List.exists_mem_of_ne_nil blanks hne
  have hnone : Host.digits? 10 (ds ++ blanks) = none :=
    digits?_eq_none (Host.value?_of_isBlank (hblanks x hx)) (List.mem_append_right ds hx)
  rw [readPort, hnone]
  rfl

/-! ## Hosts -/

theorem host?_append_special [Tables] (hne : blanks ≠ []) (hblanks : ∀ x ∈ blanks, isBlank x = true)
    (cs : List Char) : ∃ fault, host? true (cs ++ blanks) = .error fault := by
  obtain ⟨init, x, rfl⟩ := (List.eq_nil_or_concat' blanks).resolve_left hne
  have hx : isBlank x = true := hblanks x (by simp)
  obtain ⟨fault, hfault⟩ := Host.ofSpecial_of_blank hx (cs ++ init)
  rw [List.append_assoc] at hfault
  exact ⟨fault, by simp [host?, hfault, Except.map]⟩

/-- Without a bracket in front, a text is a host of another scheme if no character is forbidden. -/
theorem ofOther_eq_error_iff {fault : UrlFault} (h : cs.head? ≠ some '[') :
    Host.ofOther cs = .error fault ↔
      fault = .invalidHostCharacter ∧ ∃ x ∈ cs, Host.isForbiddenOther x = true := by
  rw [Host.ofOther, if_neg h, ← List.any_eq_true]
  split
  · simp [*, eq_comm]
  · simp [*]

/-- A text that is no host does not become one by blanks behind it. -/
theorem ofOther_append {fault : UrlFault} (h : Host.ofOther cs = .error fault) (hcs : cs ≠ [])
    (hblanks : ∀ x ∈ blanks, isBlank x = true) :
    ∃ fault, Host.ofOther (cs ++ blanks) = .error fault := by
  have hhead : (cs ++ blanks).head? = cs.head? := List.head?_append_of_ne_nil _ hcs
  by_cases hbracket : cs.head? = some '['
  · rcases List.eq_nil_or_concat' blanks with rfl | ⟨init, x, rfl⟩
    · exact ⟨fault, by rwa [List.append_nil]⟩
    · have hx : x ≠ ']' := ne_of_isBlank (hblanks x (by simp)) rfl
      have hnone := Host.unbracketed?_of_last hx (cs ++ init)
      rw [List.append_assoc] at hnone
      refine ⟨.invalidIpv6, ?_⟩
      rw [Host.ofOther, hhead, if_pos hbracket, Host.ofBrackets, hnone]
      rfl
  · obtain ⟨rfl, x, hx, hforbidden⟩ := (ofOther_eq_error_iff hbracket).1 h
    exact ⟨_, (ofOther_eq_error_iff (hhead ▸ hbracket)).2
      ⟨rfl, x, List.mem_append_left _ hx, hforbidden⟩⟩

/-- A blank that the host of any other scheme takes is a control character. -/
theorem isForbiddenOther_of_isBlank {x : Char} (hx : isBlank x = true) :
    Host.isForbiddenOther x = false ↔ 0 < x.toNat ∧ x.toNat < 0x20 := by
  have hall : ∀ n < 0x21, Host.isForbiddenOther (Char.ofNat n) = false ↔ 0 < n ∧ n < 0x20 := by
    decide
  simpa using hall x.toNat (Host.toNat_of_isBlank hx)

/-- Blanks alone are a host of another scheme if they are control characters. -/
theorem ofOther_blanks_eq_error_iff (hblanks : ∀ x ∈ blanks, isBlank x = true) :
    (∃ fault, Host.ofOther blanks = .error fault) ↔
      ¬ ∀ x ∈ blanks, 0 < x.toNat ∧ x.toNat < 0x20 := by
  have hhead : blanks.head? ≠ some '[' := by
    intro h
    cases hblanks '[' (List.mem_of_mem_head? h)
  simp only [ofOther_eq_error_iff hhead, exists_eq_left, not_forall]
  refine exists_congr fun x => ?_
  rw [exists_prop]
  refine and_congr_right fun hx => ?_
  rw [← isForbiddenOther_of_isBlank (hblanks x hx), Bool.not_eq_false]

theorem host?_other [Tables] (hcs : cs ≠ []) : host? false cs = (Host.ofOther cs).map some := by
  rw [host?, List.isEmpty_eq_false_iff.2 hcs]
  rfl

/-! ## Host and port together -/

theorem not_mem_of_isBlank {c : Char} (hc : isBlank c = false)
    (hblanks : ∀ x ∈ blanks, isBlank x = true) : c ∉ blanks :=
  fun hmem => ne_of_isBlank (hblanks c hmem) hc rfl

variable [Tables]

theorem hostAndPort_of_no_port
    (h : splitHost false (behindCredentials authority).2 = ((behindCredentials authority).2, [])) :
    hostAndPort scheme special authority =
      if (behindCredentials authority).2.isEmpty &&
          (special || (behindCredentials authority).1) then .error .emptyHost
      else (host? special (behindCredentials authority).2).map fun host => (host, none) := by
  rw [hostAndPort]
  dsimp only
  rw [h, List.isEmpty_nil, Bool.not_true, Bool.or_false]
  split
  · rfl
  · cases host? special (behindCredentials authority).2 <;> rfl

theorem hostAndPort_append_of_port (hne : blanks ≠ []) (hblanks : ∀ x ∈ blanks, isBlank x = true)
    (h : splitHost false (behindCredentials authority).2 = (host, ':' :: ds)) :
    ∃ fault, hostAndPort scheme special (authority ++ blanks) = .error fault := by
  rw [hostAndPort, behindCredentials_append (not_mem_of_isBlank rfl hblanks)]
  dsimp only
  rw [splitHost_append_of_port h]
  dsimp only
  split
  · exact ⟨_, rfl⟩
  · rw [readPort_append hne hblanks]
    cases host? special host <;> exact ⟨_, rfl⟩

theorem hostAndPort_append_of_no_port (hne : blanks ≠ [])
    (hblanks : ∀ x ∈ blanks, isBlank x = true)
    (h : splitHost false (behindCredentials authority).2 = ((behindCredentials authority).2, [])) :
    hostAndPort scheme special (authority ++ blanks) =
      (host? special ((behindCredentials authority).2 ++ blanks)).map fun host => (host, none) := by
  have hbehind := behindCredentials_append (not_mem_of_isBlank rfl hblanks) authority
  rw [hostAndPort_of_no_port]
  · rw [hbehind, List.isEmpty_eq_false_iff.2 (List.append_ne_nil_of_right_ne_nil _ hne)]
    rfl
  · rw [hbehind]
    exact splitHost_append h hblanks

/-- No host and port of a web scheme end in a blank. -/
theorem hostAndPort_append_special (hne : blanks ≠ []) (hblanks : ∀ x ∈ blanks, isBlank x = true)
    (scheme : String) (authority : List Char) :
    ∃ fault, hostAndPort scheme true (authority ++ blanks) = .error fault := by
  rcases splitHost_cases false (behindCredentials authority).2 with h | ⟨host, ds, h⟩
  · obtain ⟨fault, hfault⟩ := host?_append_special hne hblanks (behindCredentials authority).2
    exact ⟨fault, by rw [hostAndPort_append_of_no_port hne hblanks h, hfault]; rfl⟩
  · exact hostAndPort_append_of_port hne hblanks h

/-- Control characters are a host behind credentials; other blanks behind a text that tells no host
and port do not make it tell any. -/
theorem hostAndPort_append_other {fault : UrlFault} (hne : blanks ≠ [])
    (hblanks : ∀ x ∈ blanks, isBlank x = true)
    (h : hostAndPort scheme false authority = .error fault) :
    (∃ fault, hostAndPort scheme false (authority ++ blanks) = .error fault) ∨
      (∃ user, authority = user ++ ['@']) ∧ ∀ x ∈ blanks, 0 < x.toNat ∧ x.toNat < 0x20 := by
  rcases splitHost_cases false (behindCredentials authority).2 with hnoPort | ⟨host, ds, hport⟩
  · rw [hostAndPort_append_of_no_port hne hblanks hnoPort,
      host?_other (List.append_ne_nil_of_right_ne_nil _ hne)]
    rw [hostAndPort_of_no_port hnoPort] at h
    cases hbehind : behindCredentials authority with
    | mk credentials cs =>
      rw [hbehind] at h
      dsimp only at h ⊢
      by_cases hcs : cs = []
      · subst hcs
        rw [List.nil_append]
        cases credentials with
        | false => cases h
        | true =>
          by_cases hcontrol : ∀ x ∈ blanks, 0 < x.toNat ∧ x.toNat < 0x20
          · exact .inr ⟨eq_append_of_behindCredentials hbehind, hcontrol⟩
          · obtain ⟨fault, hfault⟩ := (ofOther_blanks_eq_error_iff hblanks).2 hcontrol
            exact .inl ⟨fault, by rw [hfault]; rfl⟩
      · rw [List.isEmpty_eq_false_iff.2 hcs, host?_other hcs] at h
        cases hhost : Host.ofOther cs with
        | ok host =>
          rw [hhost] at h
          cases h
        | error fault =>
          obtain ⟨fault, hfault⟩ := ofOther_append hhost hcs hblanks
          exact .inl ⟨fault, by rw [hfault]; rfl⟩
  · exact .inl (hostAndPort_append_of_port hne hblanks hport)

/-- Nothing but a host may follow credentials. -/
theorem hostAndPort_user (scheme : String) (user : List Char) :
    hostAndPort scheme false (user ++ ['@']) = .error .emptyHost := by
  rw [hostAndPort, behindCredentials_user]
  rfl

theorem hostAndPort_user_append (hne : blanks ≠ [])
    (hcontrol : ∀ x ∈ blanks, 0 < x.toNat ∧ x.toNat < 0x20) (scheme : String) (user : List Char) :
    ∃ e, hostAndPort scheme false (user ++ ['@'] ++ blanks) = .ok e := by
  have hblanks : ∀ x ∈ blanks, isBlank x = true :=
    fun x hx => decide_eq_true (hcontrol x hx).2.le
  have hnoPort : splitHost false (behindCredentials (user ++ ['@'])).2 =
      ((behindCredentials (user ++ ['@'])).2, []) := by
    rw [behindCredentials_user]
    rfl
  rw [hostAndPort_append_of_no_port hne hblanks hnoPort, behindCredentials_user, List.nil_append,
    host?_other hne]
  cases hhost : Host.ofOther blanks with
  | ok host => exact ⟨_, rfl⟩
  | error fault => exact absurd hcontrol ((ofOther_blanks_eq_error_iff hblanks).1 ⟨fault, hhost⟩)

end BeaconReplay.Url
