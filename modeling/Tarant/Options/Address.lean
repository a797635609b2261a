import Tarant.Options.Credentials

/-!
# The port of an address

An address without a port gets the default one.  Whether it has a port is decided by the
colons in it, and the literal of an IPv6 address has colons of its own.
-/

namespace Tarant.Options.ConnectOptions

/-! ## Hosts and ports of a URL -/

def NameChar (c : Char) : Prop :=
  c.isAlphanum = true ∨ c = Char.ofNat 0x27 ∨
    c ∈ ['-', '.', '_', '~', '%', '!', '$', '&', '(', ')', '*', '+', ',', ';', '=']

instance : DecidablePred NameChar := fun _ => inferInstanceAs (Decidable (_ ∨ _))

inductive Host where
  | name (text : String) (chars : ∀ c ∈ text.toList, NameChar c)
  | literal (inner : String) (chars : ∀ c ∈ inner.toList, NameChar c ∨ c = ':')

def Host.text : Host → String
  | .name text _ => text
  | .literal inner _ => "[" ++ inner ++ "]"

structure Port where
  digits : String
  chars : ∀ c ∈ digits.toList, c.isDigit = true

def authority (host : Host) : Option Port → String
  | none => host.text
  | some port => host.text ++ ":" ++ port.digits

def address (host : Host) : Option Port → String
  | none => host.text ++ ":" ++ "3301"
  | some port => host.text ++ ":" ++ port.digits

def HasPort (addr : String) : Prop :=
  ∃ front digits : String, addr = front ++ ":" ++ digits ∧ digits ≠ "" ∧
    ∀ c ∈ digits.toList, c.isDigit = true

theorem not_separator {c : Char} (h : NameChar c) : c ≠ '@' ∧ c ≠ '/' ∧ c ≠ ':' := by
  refine ⟨?_, ?_, ?_⟩ <;> rintro rfl <;> revert h <;> unfold NameChar <;> decide

theorem Host.no_separator (host : Host) : '@' ∉ host.text.toList ∧ '/' ∉ host.text.toList := by
  cases host with
  | name text chars =>
      exact ⟨fun h => (not_separator (chars _ h)).1 rfl,
        fun h => (not_separator (chars _ h)).2.1 rfl⟩
  | literal inner chars =>
      have hinner (c : Char) (hc : c = '@' ∨ c = '/') : c ∉ inner.toList := by
        intro hmem
        obtain hname | rfl := chars c hmem
        · obtain ⟨hat, hslash, -⟩ := not_separator hname
          exact hc.elim hat hslash
        · simp at hc
      simp [Host.text, hinner]

theorem Port.no_separator (port : Port) : '@' ∉ port.digits.toList ∧ '/' ∉ port.digits.toList :=
  ⟨fun h => absurd (port.chars _ h) (by decide), fun h => absurd (port.chars _ h) (by decide)⟩

theorem authority_no_separator (host : Host) (port : Option Port) :
    '@' ∉ (authority host port).toList ∧ '/' ∉ (authority host port).toList := by
  cases port with
  | none => exact host.no_separator
  | some port => simp [authority, host.no_separator, port.no_separator]

/-! ## The address of a URL -/

inductive IsCredentials : String → Prop
  | user {user text : String} (h : EncodedAs user text) : IsCredentials text
  | password {user password userText passwordText : String} (huser : EncodedAs user userText)
      (hpassword : EncodedAs password passwordText) :
      IsCredentials (userText ++ ":" ++ passwordText)

theorem IsCredentials.no_path {text : String} (h : IsCredentials text) : '/' ∉ text.toList := by
  cases h with
  | user h => exact h.no_separator.2.2
  | password huser hpassword => simp [huser.no_separator.2.2, hpassword.no_separator.2.2]

theorem splitOnce_none {s : String} {c : Char} (h : c ∉ s.toList) : splitOnce s c = none := by
  rw [splitOnce, Foundation.splitFirst_none h]
  rfl

theorem IsCredentials.accepted {text : String} (h : IsCredentials text) (options : ConnectOptions) :
    ∃ result, options.withCredentials text = .ok result ∧ result.addr = options.addr := by
  cases h with
  | @user user text h =>
      refine ⟨{ options with user := some user, password := none }, ?_, rfl⟩
      rw [withCredentials, splitCredentials, splitOnce_none h.no_separator.2.1]
      change (percentDecode text >>= _) = _
      rw [percentDecode_encoded h]
      rfl
  | password huser hpassword => exact ⟨_, withCredentials_encoded huser hpassword, rfl⟩

theorem withCredentials_addr {options result : ConnectOptions} {credentials : String}
    (h : options.withCredentials credentials = .ok result) : result.addr = options.addr := by
  unfold withCredentials at h
  obtain ⟨user, -, h⟩ := Msgpack.bind_ok.mp h
  obtain ⟨password, -, h⟩ := Msgpack.bind_ok.mp h
  obtain rfl := Except.ok.inj h
  rfl

theorem parse_addr {front host : String} {result : ConnectOptions} (hne : host ≠ "")
    (hat : '@' ∉ host.toList) (hpath : '/' ∉ host.toList)
    (h : parse (front ++ "@" ++ host) = .ok result) : result.addr = (new host).addr := by
  have hrest : ∃ front', (stripPrefix (front ++ "@" ++ host) "tarantool://").getD
      (front ++ "@" ++ host) = front' ++ "@" ++ host := by
    cases hstrip : stripPrefix (front ++ "@" ++ host) "tarantool://" with
    | none => exact ⟨front, rfl⟩
    | some rest =>
        obtain ⟨chars, hchars, rfl⟩ := Option.map_eq_some_iff.mp hstrip
        rw [List.isPrefixOf?_eq_some_iff_append_eq] at hchars
        have hlist : (front ++ "@" ++ host).toList = front.toList ++ '@' :: host.toList := by simp
        obtain ⟨middle, -, rfl⟩ := Foundation.start_before (by decide) (hchars.trans hlist)
        refine ⟨String.ofList middle, String.toList_inj.mp ?_⟩
        simp
  obtain ⟨front', hrest⟩ := hrest
  rw [parse_with hrest (rsplitOnce_at front' hat) hne hpath] at h
  exact withCredentials_addr h

theorem parse_bare {scheme host : String} (hscheme : scheme = "" ∨ scheme = "tarantool://")
    (hne : host ≠ "") (hat : '@' ∉ host.toList) (hpath : '/' ∉ host.toList) :
    parse (scheme ++ host) = .ok (new host) := by
  have hnone : ¬ contains host '/' = true := fun h => hpath (contains_iff.mp h)
  have hsplit : rsplitOnce host '@' = none := by
    rw [rsplitOnce, Foundation.splitLast_none hat]
    rfl
  rw [parse, stripped hscheme hpath, splitHost, hsplit]
  simp only
  rw [if_neg hne, if_neg hnone]

theorem new_addr (addr : String) :
    (new addr).addr = if ':' ∈ addr.toList then addr else addr ++ ":" ++ "3301" := by
  have hport : toString defaultPort = "3301" := by decide
  rw [← hport]
  exact if_congr contains_iff rfl rfl

/-! ## Ports -/

/--
The address is the host with its port or the default one, whether the URL has a scheme and
credentials or not, and it ends in a port.
-/
structure GetsPort (host : Host) (port : Option Port) : Prop where
  new : (new (authority host port)).addr = address host port
  bare : authority host port ≠ "" → ∀ scheme : String, scheme = "" ∨ scheme = "tarantool://" →
    ∃ options, parse (scheme ++ authority host port) = .ok options ∧
      options.addr = address host port
  credentials : authority host port ≠ "" → ∀ scheme : String,
    scheme = "" ∨ scheme = "tarantool://" → ∀ text, IsCredentials text →
      ∃ options, parse (scheme ++ (text ++ "@" ++ authority host port)) = .ok options ∧
        options.addr = address host port
  any : authority host port ≠ "" → ∀ front options,
    parse (front ++ "@" ++ authority host port) = .ok options → options.addr = address host port
  port : HasPort (address host port)

/-- A port is given and has a digit, or none is given and the host has no colons. -/
def Unambiguous (host : Host) : Option Port → Prop
  | none => ':' ∉ host.text.toList
  | some port => port.digits ≠ ""

theorem gets_port_of_new {host : Host} {port : Option Port}
    (hnew : (ConnectOptions.new (authority host port)).addr = address host port)
    (hport : HasPort (address host port)) : GetsPort host port := by
  obtain ⟨hat, hpath⟩ := authority_no_separator host port
  refine ⟨hnew, fun hne scheme hscheme => ?_, fun hne scheme hscheme text htext => ?_,
    fun hne front options hparse => ?_, hport⟩
  · exact ⟨_, parse_bare hscheme hne hat hpath, hnew⟩
  · obtain ⟨options, hok, haddr⟩ := htext.accepted (ConnectOptions.new (authority host port))
    have hnoPath : '/' ∉ (text ++ "@" ++ authority host port).toList := by
      simp [htext.no_path, hpath]
    refine ⟨options, ?_, haddr.trans hnew⟩
    rw [parse_with (stripped hscheme hnoPath) (rsplitOnce_at _ hat) hne hpath, hok]
  · exact (parse_addr hne hat hpath hparse).trans hnew

theorem default_hasPort (front : String) : HasPort (front ++ ":" ++ "3301") :=
  ⟨front, "3301", rfl, by decide, by simp⟩

theorem not_hasPort (front : String) : ¬ HasPort (front ++ ":" ++ "") := by
  rintro ⟨front', digits, heq, hne, hdigits⟩
  have hlast := congrArg (fun s : String => s.toList.getLast?) heq
  have hnonempty : digits.toList ≠ [] := fun h => hne (String.toList_inj.mp h)
  obtain ⟨last, hlast'⟩ := Option.isSome_iff_exists.mp (List.getLast?_isSome.mpr hnonempty)
  have hdigit := hdigits last (List.mem_of_getLast? hlast')
  simp only [String.toList_append, List.append_assoc, List.getLast?_append, hlast'] at hlast
  obtain rfl : ':' = last := by simpa using hlast
  cases hdigit

theorem GetsPort.unambiguous {host : Host} {port : Option Port} (h : GetsPort host port) :
    Unambiguous host port := by
  cases port with
  | none =>
      intro hcolon
      have hnew := h.new
      rw [new_addr, authority, if_pos hcolon] at hnew
      have hlength := congrArg String.length hnew
      have hone : ":".length = 1 := rfl
      rw [address, String.length_append, String.length_append] at hlength
      omega
  | some port =>
      intro hempty
      have hport := h.port
      rw [address, hempty] at hport
      exact not_hasPort _ hport

/-- Every host gets a port, unless its colons or a port without digits are taken for one. -/
theorem gets_port_iff (host : Host) (port : Option Port) :
    GetsPort host port ↔ Unambiguous host port := by
  refine ⟨GetsPort.unambiguous, fun h => ?_⟩
  cases port with
  | none =>
      refine gets_port_of_new ?_ (default_hasPort host.text)
      rw [new_addr, authority, if_neg h]
      rfl
  | some port =>
      refine gets_port_of_new ?_ ⟨host.text, port.digits, rfl, h, port.chars⟩
      rw [new_addr, authority, if_pos (by simp)]
      rfl

theorem loopback_chars : ∀ c ∈ "::1".toList, NameChar c ∨ c = ':' := by
  have hone : NameChar '1' := .inl rfl
  simpa using hone

def loopback : Host := .literal "::1" loopback_chars

/-- The literal of an IPv6 address stays without a port. -/
theorem loopback_gets_none :
    (new "[::1]").addr = "[::1]" ∧ ¬ ∀ host port, GetsPort host port := by
  refine ⟨by decide, fun hall => ?_⟩
  have hnone := (hall loopback none).unambiguous
  exact hnone (by decide)

end Tarant.Options.ConnectOptions
