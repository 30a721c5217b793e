import BeaconReplay.Proofs.Url.Authorities

/-!
# Where a text points that a path follows

A path behind a text that stands behind a scheme leaves host and port alone once their text has
begun. What may lie between the two are blanks, which become part of the host, so that the whole
points nowhere.
-/
namespace BeaconReplay.Url

open Host (isBlank ne_of_isBlank)

variable {scheme : String} {special : Bool} {rest cs ys slashes blanks : List Char} {k : Kind}

/-! ## The text that tells host and port -/

theorem upToPath_append_slash (special : Bool) (cs ys : List Char) :
    upToPath special (cs ++ '/' :: ys) = upToPath special cs :=
  takeWhile_append_stop (by simp [endsAuthority]) cs ys

theorem not_endsAuthority_of_isBlank {x : Char} (hx : isBlank x = true) :
    endsAuthority special x = false := by
  have hslash : x ≠ '/' := ne_of_isBlank hx rfl
  have hquery : x ≠ '?' := ne_of_isBlank hx rfl
  have hfragment : x ≠ '#' := ne_of_isBlank hx rfl
  have hback : x ≠ '\\' := ne_of_isBlank hx rfl
  simp [endsAuthority, *]

theorem not_isSlash_of_isBlank {x : Char} (hx : isBlank x = true) : isSlash special x = false := by
  have hslash : x ≠ '/' := ne_of_isBlank hx rfl
  have hback : x ≠ '\\' := ne_of_isBlank hx rfl
  simp [isSlash, *]

/-- Blanks behind a text belong to the text that tells the host, unless that one has ended. -/
theorem upToPath_append_blanks (hblanks : ∀ x ∈ blanks, isBlank x = true) (cs : List Char) :
    upToPath special (cs ++ blanks) = upToPath special cs ∨
      upToPath special cs = cs ∧ upToPath special (cs ++ blanks) = cs ++ blanks := by
  have hall : ∀ x ∈ blanks, (!endsAuthority special x) = true := fun x hx => by
    rw [not_endsAuthority_of_isBlank (hblanks x hx)]
    rfl
  rw [upToPath, List.takeWhile_append, List.takeWhile_eq_self_iff.2 hall]
  split_ifs with hlength
  · have hself := (List.takeWhile_prefix _).eq_of_length hlength
    exact .inr ⟨hself, rfl⟩
  · exact .inl rfl

/-- Nothing in front of the end of the text that tells the host is left out. -/
theorem upToPath_eq_self {cs : List Char} (h : ∀ c ∈ cs, endsAuthority special c = false) :
    upToPath special cs = cs :=
  List.takeWhile_eq_self_iff.2 fun c hc => by rw [h c hc]; rfl

/-- A text tells host and port of a file or of another scheme if two slashes announce it. -/
theorem announced?_eq_some_iff {authority : List Char} :
    announced? special rest = some authority ↔
      ∃ a b cs, rest = a :: b :: cs ∧ isSlash special a = true ∧ isSlash special b = true ∧
        upToPath special cs = authority := by
  match rest with
  | [] => simp [announced?]
  | [a] => simp [announced?]
  | a :: b :: cs => simp [announced?]; aesop

theorem announced?_append_slash (h : 2 ≤ rest.length) (special : Bool) (ys : List Char) :
    announced? special (rest ++ '/' :: ys) = announced? special rest := by
  match rest with
  | a :: b :: cs =>
    rw [List.cons_append, List.cons_append, announced?, upToPath_append_slash, announced?]

/-- A text behind a scheme that ends in credentials. -/
def EndsInUser (rest : List Char) : Prop :=
  ∃ user, (∀ c ∈ user, endsAuthority false c = false) ∧ rest = '/' :: '/' :: (user ++ ['@'])

variable [Tables]

/-! ## Web schemes -/

theorem siteOf_web (scheme : String) (rest : List Char) :
    siteOf .web scheme rest =
      (hostAndPort scheme true (upToPath true (rest.dropWhile (isSlash true)))).map
        fun e => ⟨scheme, e.1, e.2⟩ := rfl

/-- A path behind a host leaves it alone. -/
theorem siteOf_web_append_slash (h : ∃ c ∈ rest, isSlash true c = false) (ys : List Char) :
    siteOf .web scheme (rest ++ '/' :: ys) = siteOf .web scheme rest := by
  have hdrop : (rest ++ '/' :: ys).dropWhile (isSlash true) =
      rest.dropWhile (isSlash true) ++ '/' :: ys := by
    obtain ⟨c, hc, hslash⟩ := h
    obtain ⟨before, after, rfl⟩ := List.append_of_mem hc
    rw [List.append_assoc, List.cons_append, dropWhile_append_stop hslash,
      dropWhile_append_stop hslash, List.append_assoc, List.cons_append]
  rw [siteOf_web, hdrop, upToPath_append_slash, siteOf_web]

/-- Blanks between a text and a path belong to no host. -/
theorem siteOf_web_append_blanks (hne : blanks ≠ []) (hblanks : ∀ x ∈ blanks, isBlank x = true)
    (ys : List Char) :
    siteOf .web scheme (rest ++ blanks ++ '/' :: ys) = siteOf .web scheme rest ∨
      ∃ fault, siteOf .web scheme (rest ++ blanks ++ '/' :: ys) = .error fault := by
  obtain ⟨x, blanks, rfl⟩ := List.exists_cons_of_ne_nil hne
  have hdrop : (rest ++ x :: blanks ++ '/' :: ys).dropWhile (isSlash true) =
      rest.dropWhile (isSlash true) ++ x :: blanks ++ '/' :: ys := by
    have hx : isSlash true x = false := not_isSlash_of_isBlank (hblanks x List.mem_cons_self)
    simp only [List.append_assoc, List.cons_append]
    exact dropWhile_append_stop hx rest _
  rw [siteOf_web, hdrop, upToPath_append_slash]
  rcases upToPath_append_blanks hblanks (rest.dropWhile (isSlash true)) with hsame | ⟨-, hmore⟩
  · exact .inl (by rw [hsame, siteOf_web])
  · obtain ⟨fault, hfault⟩ := hostAndPort_append_special hne hblanks scheme
      (rest.dropWhile (isSlash true))
    exact .inr ⟨fault, by rw [hmore, hfault]; rfl⟩

/-- Slashes alone leave the host of a web scheme open. -/
theorem siteOf_web_slashes (h : ∀ c ∈ rest, isSlash true c = true) (scheme : String) :
    siteOf .web scheme rest = .error .emptyHost := by
  rw [siteOf_web, List.dropWhile_eq_nil_iff.2 h]
  rfl

theorem siteOf_web_slashes_append (h : ∀ c ∈ rest, isSlash true c = true) (scheme : String)
    (ys : List Char) : siteOf .web scheme (rest ++ ys) = siteOf .web scheme ys := by
  rw [siteOf_web, List.dropWhile_append_of_pos h, siteOf_web]

/-! ## Files and other schemes -/

theorem endpoint_nil (hk : k ≠ .web) (scheme : String) :
    endpoint k scheme [] = .ok (none, none) := by
  cases k with
  | web => exact absurd rfl hk
  | file => rfl
  | other => rfl

/-- Control characters are a host behind credentials; other blanks behind a text that tells no host
and port do not make it tell any. -/
theorem endpoint_append {authority : List Char} {fault : UrlFault} (hne : blanks ≠ [])
    (hblanks : ∀ x ∈ blanks, isBlank x = true) (hk : k ≠ .web)
    (h : endpoint k scheme authority = .error fault) :
    (∃ fault, endpoint k scheme (authority ++ blanks) = .error fault) ∨
      k = .other ∧ (∃ user, authority = user ++ ['@']) ∧
        ∀ x ∈ blanks, 0 < x.toNat ∧ x.toNat < 0x20 := by
  cases k with
  | web => exact absurd rfl hk
  | file =>
    obtain ⟨fault, hfault⟩ := host?_append_special hne hblanks authority
    exact .inl ⟨fault, by rw [endpoint, hfault]; rfl⟩
  | other =>
    exact (hostAndPort_append_other hne hblanks h).imp_right fun hcontrols => ⟨rfl, hcontrols⟩

theorem siteOf_eq_error_iff (hk : k ≠ .web) {fault : UrlFault} :
    siteOf k scheme rest = .error fault ↔
      ∃ authority, announced? (k == .file) rest = some authority ∧
        endpoint k scheme authority = .error fault := by
  have hauthority : authority? k rest = announced? (k == .file) rest := by
    cases k with
    | web => exact absurd rfl hk
    | file => rfl
    | other => rfl
  rw [siteOf, hauthority]
  cases announced? (k == .file) rest with
  | none => simp
  | some authority => cases hendpoint : endpoint k scheme authority <;> simp [hendpoint, Except.map]

theorem siteOf_append_slash (hk : k ≠ .web) (h : 2 ≤ rest.length) (scheme : String)
    (ys : List Char) : siteOf k scheme (rest ++ '/' :: ys) = siteOf k scheme rest := by
  cases k with
  | web => exact absurd rfl hk
  | file => rw [siteOf, authority?, announced?_append_slash h, siteOf, authority?]
  | other => rw [siteOf, authority?, announced?_append_slash h, siteOf, authority?]

/-- Slashes at the end of a text that points nowhere stand behind the text that tells the host. -/
theorem siteOf_slashes (hk : k ≠ .web) (hslashes : ∀ c ∈ slashes, c = '/') {fault : UrlFault}
    (h : siteOf k scheme (rest ++ '/' :: slashes) = .error fault) : 2 ≤ rest.length := by
  obtain ⟨authority, hannounced, hendpoint⟩ := (siteOf_eq_error_iff hk).1 h
  obtain ⟨a, b, cs, heq, -, -, hauthority⟩ := announced?_eq_some_iff.1 hannounced
  by_contra hshort
  have hmem : ∀ c ∈ cs, c = '/' := by
    match rest with
    | [] =>
      cases heq
      exact fun c hc => hslashes c (List.mem_cons_of_mem _ hc)
    | [_] =>
      cases heq
      exact hslashes
    | _ :: _ :: rest => exact absurd (Nat.le_add_left 2 rest.length) hshort
  have hempty : upToPath (k == .file) cs = [] := by
    cases cs with
    | nil => rfl
    | cons c cs =>
      cases hmem c List.mem_cons_self
      exact upToPath_append_slash _ [] cs
  rw [← hauthority, hempty, endpoint_nil hk] at hendpoint
  cases hendpoint

/-- What points nowhere does not with blanks and a path behind it, unless the blanks are control
characters behind credentials. -/
theorem siteOf_append_blanks (hk : k ≠ .web) (hblanks : ∀ x ∈ blanks, isBlank x = true)
    {fault : UrlFault} (h : siteOf k scheme rest = .error fault) (ys : List Char) :
    (∃ fault, siteOf k scheme (rest ++ blanks ++ '/' :: ys) = .error fault) ∨
      k = .other ∧ EndsInUser rest ∧ blanks ≠ [] ∧ ∀ x ∈ blanks, 0 < x.toNat ∧ x.toNat < 0x20 := by
  obtain ⟨authority, hannounced, hendpoint⟩ := (siteOf_eq_error_iff hk).1 h
  obtain ⟨a, b, cs, rfl, ha, hb, rfl⟩ := announced?_eq_some_iff.1 hannounced
  have hjoined : announced? (k == .file) (a :: b :: cs ++ blanks ++ '/' :: ys) =
      some (upToPath (k == .file) (cs ++ blanks)) :=
    announced?_eq_some_iff.2 ⟨a, b, cs ++ blanks ++ '/' :: ys, rfl, ha, hb,
      upToPath_append_slash ..⟩
  rcases upToPath_append_blanks hblanks cs with hsame | ⟨hself, hmore⟩
  · exact .inl ⟨fault, (siteOf_eq_error_iff hk).2 ⟨_, hsame ▸ hjoined, hendpoint⟩⟩
  · rw [hself] at hendpoint
    by_cases hne : blanks = []
    · subst hne
      rw [List.append_nil] at hmore
      exact .inl ⟨fault, (siteOf_eq_error_iff hk).2 ⟨_, hjoined, by rwa [List.append_nil, hself]⟩⟩
    · rcases endpoint_append hne hblanks hk hendpoint with
        ⟨fault, hfault⟩ | ⟨rfl, ⟨user, rfl⟩, hcontrol⟩
      · exact .inl ⟨fault, (siteOf_eq_error_iff hk).2 ⟨_, hjoined, by rwa [hmore]⟩⟩
      · refine .inr ⟨rfl, ⟨user, ?_, ?_⟩, hne, hcontrol⟩
        · intro c hc
          have hopen : (!endsAuthority false c) = true :=
            List.takeWhile_eq_self_iff.1 hself c (List.mem_append_left _ hc)
          rwa [Bool.not_eq_true'] at hopen
        · rw [isSlash_false.1 ha, isSlash_false.1 hb]

theorem siteOf_of_endsInUser (h : EndsInUser rest) (scheme : String) :
    siteOf .other scheme rest = .error .emptyHost := by
  obtain ⟨user, huser, rfl⟩ := h
  have hopen : ∀ c ∈ user ++ ['@'], endsAuthority false c = false :=
    List.forall_mem_append.2 ⟨huser, by simp [endsAuthority]⟩
  refine (siteOf_eq_error_iff (by decide)).2 ⟨user ++ ['@'], ?_, hostAndPort_user scheme user⟩
  exact announced?_eq_some_iff.2 ⟨'/', '/', _, rfl, rfl, rfl, upToPath_eq_self hopen⟩

/-- Behind credentials, control characters in front of a path are a host. -/
theorem siteOf_append_controls (h : EndsInUser rest) (hne : blanks ≠ [])
    (hcontrol : ∀ x ∈ blanks, 0 < x.toNat ∧ x.toNat < 0x20) (scheme : String) (ys : List Char) :
    ∃ site, siteOf .other scheme (rest ++ blanks ++ '/' :: ys) = .ok site := by
  obtain ⟨user, huser, rfl⟩ := h
  have hblanks : ∀ c ∈ blanks, endsAuthority false c = false := fun c hc =>
    not_endsAuthority_of_isBlank (decide_eq_true (hcontrol c hc).2.le)
  have hopen : ∀ c ∈ user ++ ['@'] ++ blanks, endsAuthority false c = false :=
    List.forall_mem_append.2
      ⟨List.forall_mem_append.2 ⟨huser, by simp [endsAuthority]⟩, hblanks⟩
  have hauthority : authority? .other ('/' :: '/' :: (user ++ ['@']) ++ blanks ++ '/' :: ys) =
      some (user ++ ['@'] ++ blanks) :=
    announced?_eq_some_iff.2 ⟨'/', '/', user ++ ['@'] ++ blanks ++ '/' :: ys, rfl, rfl, rfl,
      by rw [upToPath_append_slash, upToPath_eq_self hopen]⟩
  obtain ⟨e, he⟩ := hostAndPort_user_append hne hcontrol scheme user
  exact ⟨⟨scheme, e.1, e.2⟩, by rw [siteOf, hauthority]; dsimp only [endpoint]; rw [he]; rfl⟩

end BeaconReplay.Url
