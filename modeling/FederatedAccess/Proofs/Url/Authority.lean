import FederatedAccess.Proofs.Url.Host
import FederatedAccess.Proofs.Url.Path

/-!
# Authorities are read back from their printed forms

The user ends at the last at sign, the host at a colon outside brackets, and what is left is the
number of the socket. None of the parts holds the delimiter that ends it, so a tidy authority is cut
where its parts were joined.
-/

namespace FederatedAccess.Url

/-- An authority whose parts are read as they are. -/
structure IsTidyAuthority (scheme : List Char) (a : Authority) : Prop where
  username : ∀ c ∈ a.username, isUserPlain c = true
  password : ∀ secret ∈ a.password, secret ≠ [] ∧ ∀ c ∈ secret, isUserPlain c = true
  host : a.host.IsRead
  socket : ∀ n ∈ a.socket, n < 65536 ∧ usualSocket scheme ≠ some n

/-- What stands before the at sign. -/
def userText (a : Authority) : List Char :=
  a.username ++ (a.password.map (':' :: ·)).getD []

/-- The printed authority without its slashes. -/
def authorityText (a : Authority) : List Char :=
  writeUser a ++ (a.host.render ++ writeSocket a.socket)

theorem writeAuthority_eq (a : Authority) : writeAuthority a = '/' :: '/' :: authorityText a := by
  simp [writeAuthority, authorityText]

/-- A character of a user name ends no part of a URL. -/
theorem isUserPlain_spec {c : Char} (h : isUserPlain c = true) :
    0x20 < c.toNat ∧ c ≠ '@' ∧ c ≠ ':' ∧ isSlash true c = false ∧ isPathEnd c = false := by
  have all : ∀ n < 128, isUserPlain (Char.ofNat n) = true → 0x20 < (Char.ofNat n).toNat ∧
      Char.ofNat n ≠ '@' ∧ Char.ofNat n ≠ ':' ∧ isSlash true (Char.ofNat n) = false ∧
        isPathEnd (Char.ofNat n) = false := by decide +kernel
  have hlt : c.toNat < 128 := by
    simp only [isUserPlain, isPathPlain, isFragmentPlain, Bool.and_eq_true, decide_eq_true_eq] at h
    omega
  exact Text.forall_ascii (P := fun c => isUserPlain c = true → 0x20 < c.toNat ∧ c ≠ '@' ∧
    c ≠ ':' ∧ isSlash true c = false ∧ isPathEnd c = false) all hlt h

/-- A character of a host ends no other part of a URL. -/
theorem isRendered_spec {c : Char} (h : Host.isRendered c = true) :
    0x20 < c.toNat ∧ c ≠ '@' ∧ isSlash true c = false ∧ isPathEnd c = false := by
  simp only [Host.isRendered, Bool.and_eq_true, decide_eq_true_eq, Bool.not_eq_true',
    List.contains_eq_mem, decide_eq_false_iff_not] at h
  obtain ⟨⟨hlow, -⟩, hmem⟩ := h
  have hne {d : Char} (hd : d ∈ "/\\@?#".toList) : c ≠ d := (ne_of_mem_of_not_mem hd hmem).symm
  simp only [isSlash, isPathEnd, Bool.true_and, Bool.or_eq_false_iff, beq_eq_false_iff_ne]
  exact ⟨hlow, hne (by decide), ⟨hne (by decide), hne (by decide)⟩, hne (by decide), hne (by decide)⟩

/-- Colons between brackets do not end the host. -/
theorem cutHost_bracketed {text : List Char} (h : ∀ c ∈ text, c ≠ ']') (rest : List Char) :
    cutHost true (text ++ rest) = (text ++ (cutHost true rest).1, (cutHost true rest).2) := by
  induction text with
  | nil => rfl
  | cons c text ih =>
      have hc := h c List.mem_cons_self
      have hinside : (if c = '[' then true else if c = ']' then false else true) = true := by
        rw [if_neg hc, ite_self]
      rw [List.cons_append, cutHost, if_neg (by simp), hinside,
        ih fun d hd => h d (List.mem_cons_of_mem _ hd)]
      rfl

theorem cutHost_of_head {rest : List Char} (h : ∀ c ∈ rest.head?, c = ':') :
    cutHost false rest = ([], rest) := by
  cases rest with
  | nil => rfl
  | cons c rest =>
      obtain rfl := h c rfl
      rfl

/-- Without brackets the host ends at the first colon. -/
theorem cutHost_plain {text : List Char} (h : ∀ c ∈ text, c ≠ ':' ∧ c ≠ '[') {rest : List Char}
    (hrest : ∀ c ∈ rest.head?, c = ':') : cutHost false (text ++ rest) = (text, rest) := by
  induction text with
  | nil => exact cutHost_of_head hrest
  | cons c text ih =>
      obtain ⟨hcolon, hbracket⟩ := h c List.mem_cons_self
      have houtside : (if c = '[' then true else if c = ']' then false else false) = false := by
        rw [if_neg hbracket, ite_self]
      rw [List.cons_append, cutHost, if_neg (by simp [hcolon]), houtside,
        ih fun d hd => h d (List.mem_cons_of_mem _ hd)]

/-- The host ends where its printed form does. -/
theorem cutHost_render {h : Host} (read : h.IsRead) {rest : List Char}
    (hrest : ∀ c ∈ rest.head?, c = ':') : cutHost false (h.render ++ rest) = (h.render, rest) := by
  cases read with
  | name ascii _ _ => exact cutHost_plain (fun c hc => (Host.isRendered_of_isAscii ascii hc).2) hrest
  | ipv4 address =>
      exact cutHost_plain
        (fun c hc => (Host.isRendered_of_isAscii (Host.isAscii_render_ipv4 address) hc).2) hrest
  | @ipv6 groups length =>
      calc
        cutHost false ('[' :: Host.renderIpv6 groups ++ [']'] ++ rest)
          = ('[' :: (cutHost true (Host.renderIpv6 groups ++ (']' :: rest))).1,
              (cutHost true (Host.renderIpv6 groups ++ (']' :: rest))).2) := by
            rw [List.append_assoc]
            rfl
        _ = ('[' :: Host.renderIpv6 groups ++ [']'], rest) := by
          rw [cutHost_bracketed fun c hc => (Host.mem_renderIpv6_spec hc).2]
          have hclose : cutHost true (']' :: rest) = ([']'], rest) := by
            calc
              cutHost true (']' :: rest)
                = (']' :: (cutHost false rest).1, (cutHost false rest).2) := rfl
              _ = ([']'], rest) := by rw [cutHost_of_head hrest]
          rw [hclose]
          rfl

theorem readSocket_writeSocket {scheme : List Char} {socket : Option Nat}
    (h : ∀ n ∈ socket, n < 65536 ∧ usualSocket scheme ≠ some n) :
    readSocket scheme (writeSocket socket) = some socket := by
  cases socket with
  | none => rfl
  | some n =>
      obtain ⟨hlt, husual⟩ := h n rfl
      have hempty : (Decimal.ofNat n).isEmpty = false :=
        List.isEmpty_eq_false_iff.mpr Nat.toDigits_ne_nil
      have hdigits : (Decimal.ofNat n).all Decimal.isDigit = true :=
        List.all_eq_true.mpr fun c hc => Decimal.isDigit_of_mem_ofNat hc
      simp [writeSocket, readSocket, hempty, hdigits, Decimal.value_ofNat, hlt, husual]

namespace IsTidyAuthority

variable {scheme : List Char} {a : Authority}

/-- What stands before the at sign holds none. -/
theorem mem_userText (tidy : IsTidyAuthority scheme a) {c : Char} (hc : c ∈ userText a) :
    c = ':' ∨ isUserPlain c = true := by
  rcases List.mem_append.mp hc with hc | hc
  · exact .inr (tidy.username c hc)
  · cases hsecret : a.password with
    | none =>
        rw [hsecret] at hc
        exact absurd hc List.not_mem_nil
    | some secret =>
        rw [hsecret] at hc
        exact (List.mem_cons.mp hc).imp_right ((tidy.password secret hsecret).2 c)

theorem readUser_userText (tidy : IsTidyAuthority scheme a) :
    readUser (userText a) = (a.username, a.password) := by
  have hname : ∀ c ∈ a.username, (c != ':') = true := fun c hc =>
    bne_iff_ne.mpr (isUserPlain_spec (tidy.username c hc)).2.2.1
  have hcut : (userText a).takeWhile (· != ':') = a.username := by
    rw [userText, List.takeWhile_append_of_pos hname]
    cases a.password <;> simp
  have hsecret : ((userText a).drop a.username.length).drop 1 = a.password.getD [] := by
    rw [userText, List.drop_left]
    cases a.password <;> rfl
  rw [readUser, hcut, hsecret, Percent.encode_eq_self tidy.username]
  cases hpassword : a.password with
  | none => rfl
  | some secret =>
      obtain ⟨nonempty, plain⟩ := tidy.password secret hpassword
      rw [Option.getD_some, if_neg (by simpa using nonempty), Percent.encode_eq_self plain]

/-- The user is split off at the only at sign. -/
theorem splitUser_writeUser (tidy : IsTidyAuthority scheme a) {place : List Char}
    (hplace : '@' ∉ place) :
    (splitUser (writeUser a ++ place)).getD ([], writeUser a ++ place) = (userText a, place) := by
  have hplace' : ∀ c ∈ place, (c == '@') = false := fun c hc =>
    beq_eq_false_iff_ne.mpr (ne_of_mem_of_not_mem hc hplace)
  cases huser : userText a with
  | nil =>
      have hwrite : writeUser a = [] := by
        obtain ⟨hname, hsecret⟩ := List.append_eq_nil_iff.mp huser
        cases hpassword : a.password with
        | none => simp [writeUser, hpassword, hname]
        | some secret =>
            rw [hpassword] at hsecret
            cases hsecret
      rw [hwrite, List.nil_append, splitUser, List.splitOnP_eq_singleton hplace']
      rfl
  | cons c cs =>
      have hwrite : writeUser a = userText a ++ ['@'] := by
        cases hpassword : a.password with
        | none =>
            have hname : a.username = c :: cs := by simpa [userText, hpassword] using huser
            simp [writeUser, userText, hpassword, hname]
        | some secret => simp [writeUser, userText, hpassword]
      have hfront : ∀ d ∈ userText a, (d == '@') = false := by
        intro d hd
        refine beq_eq_false_iff_ne.mpr ?_
        rcases tidy.mem_userText hd with rfl | hplain
        · decide
        · exact (isUserPlain_spec hplain).2.1
      rw [hwrite, List.append_assoc, List.singleton_append, splitUser,
        List.splitOnP_append_cons_of_forall_mem hfront '@' rfl,
        List.splitOnP_eq_singleton hplace', huser]
      simp [List.intercalate_singleton]

theorem isRendered_of_mem_writeSocket {socket : Option Nat} {c : Char}
    (h : c ∈ writeSocket socket) : Host.isRendered c = true := by
  have hdigit : ∀ d : Fin 10, Host.isRendered (Nat.digitChar d) = true := by decide
  cases socket with
  | none => exact absurd h List.not_mem_nil
  | some n =>
      rcases List.mem_cons.mp h with rfl | h
      · rfl
      · obtain ⟨d, hd, rfl⟩ := Text.exists_of_mem_toDigits (by decide) h
        exact hdigit ⟨d, hd⟩

/-- What stands after the at sign holds none. -/
theorem isRendered_of_mem_place (tidy : IsTidyAuthority scheme a) {c : Char}
    (h : c ∈ a.host.render ++ writeSocket a.socket) : Host.isRendered c = true :=
  (List.mem_append.mp h).elim tidy.host.isRendered isRendered_of_mem_writeSocket

/-- The characters of an authority end no other part of a URL. -/
theorem spec_of_mem (tidy : IsTidyAuthority scheme a) {c : Char} (h : c ∈ authorityText a) :
    0x20 < c.toNat ∧ isSlash true c = false ∧ isPathEnd c = false := by
  have hplain {c : Char} (hc : isUserPlain c = true) :
      0x20 < c.toNat ∧ isSlash true c = false ∧ isPathEnd c = false := by
    obtain ⟨hlow, -, -, hslash, hend⟩ := isUserPlain_spec hc
    exact ⟨hlow, hslash, hend⟩
  have huser : c ∈ writeUser a → c ∈ userText a ∨ c = '@' := by
    intro hc
    rw [writeUser] at hc
    split at hc
    · rename_i hpassword
      split at hc
      · exact absurd hc List.not_mem_nil
      · simpa [userText, hpassword] using hc
    · rename_i secret hpassword
      simpa [userText, hpassword, or_assoc] using hc
  rcases List.mem_append.mp h with h | h
  · rcases huser h with h | rfl
    · rcases tidy.mem_userText h with rfl | h
      · decide
      · exact hplain h
    · decide
  · obtain ⟨hlow, -, hslash, hend⟩ := isRendered_spec (tidy.isRendered_of_mem_place h)
    exact ⟨hlow, hslash, hend⟩

theorem authorityText_ne_nil (tidy : IsTidyAuthority scheme a) : authorityText a ≠ [] :=
  List.append_ne_nil_of_right_ne_nil _
    (List.append_ne_nil_of_left_ne_nil tidy.host.render_ne_nil _)

/-- An authority is read back from its printed form. -/
theorem readAuthority_write (tidy : IsTidyAuthority scheme a) (special : isSpecial scheme = true)
    (more : Bool) : readAuthority scheme more (authorityText a) = some a := by
  have hat : '@' ∉ a.host.render ++ writeSocket a.socket := fun h => by
    cases tidy.isRendered_of_mem_place h
  have hhead : ∀ c ∈ (writeSocket a.socket).head?, c = ':' := by
    cases a.socket with
    | none => simp [writeSocket]
    | some n => simp [writeSocket]
  have hempty : a.host.render.isEmpty = false :=
    List.isEmpty_eq_false_iff.mpr tidy.host.render_ne_nil
  rw [readAuthority, authorityText, tidy.splitUser_writeUser hat]
  simp only [tidy.readUser_userText, cutHost_render tidy.host hhead, hempty, special,
    tidy.host.readDomain_render, readSocket_writeSocket tidy.socket]
  rfl

end IsTidyAuthority

theorem plain_readUser (cs : List Char) : (∀ c ∈ (readUser cs).1, isUserPlain c = true) ∧
    ∀ secret ∈ (readUser cs).2, secret ≠ [] ∧ ∀ c ∈ secret, isUserPlain c = true := by
  have hplain (cs : List Char) : ∀ c ∈ Percent.encode isUserPlain cs, isUserPlain c = true :=
    Percent.forall_mem_encode rfl (by decide) fun _ _ h => h
  refine ⟨hplain _, fun secret hsecret => ?_⟩
  simp only [readUser] at hsecret
  split at hsecret
  · cases hsecret
  · rename_i hempty
    obtain rfl := Option.some.inj hsecret
    exact ⟨fun hnil => hempty (List.isEmpty_iff.mpr (Percent.eq_nil_of_encode hnil)), hplain _⟩

theorem of_readSocket {scheme cs : List Char} {socket : Option Nat}
    (h : readSocket scheme cs = some socket) :
    ∀ n ∈ socket, n < 65536 ∧ usualSocket scheme ≠ some n := by
  unfold readSocket at h
  split at h
  · cases h
    exact fun _ hn => by cases hn
  · split at h
    · cases h
      exact fun _ hn => by cases hn
    · split at h
      · dsimp only at h
        split at h
        · rename_i hlt
          cases h
          intro n hn
          split at hn
          · cases hn
          · rename_i husual
            cases hn
            exact ⟨hlt, husual⟩
        · cases h
      · cases h

/-- Authorities under a scheme of the web are tidy once they have been read. -/
theorem isTidyAuthority_of_readAuthority {scheme cs : List Char} {more : Bool} {a : Authority}
    (special : isSpecial scheme = true) (h : readAuthority scheme more cs = some a) :
    IsTidyAuthority scheme a := by
  simp only [readAuthority, special, Bool.true_or, if_true, Option.bind_eq_bind] at h
  split at h
  · cases h
  · simp only [Option.bind_eq_some_iff] at h
    obtain ⟨host, hhost, socket, hsocket, h⟩ := h
    cases h
    obtain ⟨hname, hsecret⟩ := plain_readUser ((splitUser cs).getD ([], cs)).1
    exact ⟨hname, hsecret, Host.isRead_of_readDomain hhost, of_readSocket hsocket⟩

end FederatedAccess.Url
