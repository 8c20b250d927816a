import Mathlib.Data.List.Sort
import ReplicatedDB.Model.Deployment

/-!
# Who is a member

What `initializeStaticInstance` makes of a list of addresses. An address is written down as
`host:port` and read back by `make_address`; the two agree (`makeAddress_toString`), so the keys of
a member list are as good as the addresses themselves, and depend only on which addresses are listed
(`membership`).

The database endpoint of a listed member is assumed to be 1000 above its consensus endpoint. A
member serves where its configuration says. These agree for configurations that follow the
assumption (`databaseEndpoint_iff`).
-/

namespace ReplicatedDB

/-! ### Reading numbers -/

/-- `boost::lexical_cast<unsigned short>` reads digit strings as decimal numbers, and rejects those
above 65535. -/
def ReadsDecimals (lexicalCast : String → Option UInt16) : Prop :=
  ∀ s : String, s ≠ "" → (∀ c ∈ s.toList, c.isDigit) →
    lexicalCast s =
      if Nat.ofDigitChars 10 s.toList 0 < 2 ^ 16 then
        some (UInt16.ofNat (Nat.ofDigitChars 10 s.toList 0))
      else none

/-- `boost::lexical_cast<unsigned short>` of a number without a sign. -/
def decimal (s : String) : Option UInt16 :=
  (s.toList.foldl (fun n c ↦ n.bind fun n ↦
    if c.isDigit ∧ 10 * n + (c.toNat - '0'.toNat) < 2 ^ 16 then
      some (10 * n + (c.toNat - '0'.toNat)) else none)
    (if s = "" then none else some 0)).map UInt16.ofNat

theorem le_ofDigitChars (l : List Char) (n : ℕ) : n ≤ Nat.ofDigitChars 10 l n := by
  induction l generalizing n with
  | nil => simp
  | cons c l ih =>
    rw [Nat.ofDigitChars_cons]
    have hstep : n ≤ 10 * n + (c.toNat - '0'.toNat) := by omega
    exact hstep.trans (ih _)

theorem readsDecimals_decimal : ReadsDecimals decimal := by
  -- once a number is too large it stays so
  have hnone : ∀ l : List Char, l.foldl (fun (n : Option ℕ) c ↦ n.bind fun n ↦
      if c.isDigit ∧ 10 * n + (c.toNat - '0'.toNat) < 2 ^ 16 then
        some (10 * n + (c.toNat - '0'.toNat)) else none) none = none := by
    intro l
    induction l with
    | nil => rfl
    | cons c l ih => exact ih
  have hfold : ∀ (l : List Char) (n : ℕ), (∀ c ∈ l, c.isDigit) → n < 2 ^ 16 →
      l.foldl (fun (n : Option ℕ) c ↦ n.bind fun n ↦
        if c.isDigit ∧ 10 * n + (c.toNat - '0'.toNat) < 2 ^ 16 then
          some (10 * n + (c.toNat - '0'.toNat)) else none) (some n) =
        if Nat.ofDigitChars 10 l n < 2 ^ 16 then some (Nat.ofDigitChars 10 l n) else none := by
    intro l
    induction l with
    | nil =>
      intro n _ hn
      rw [Nat.ofDigitChars_nil, if_pos hn]
      rfl
    | cons c l ih =>
      intro n hl hn
      have hc : c.isDigit := hl c (by simp)
      rw [List.foldl_cons, Option.bind_some, Nat.ofDigitChars_cons]
      by_cases hlt : 10 * n + (c.toNat - '0'.toNat) < 2 ^ 16
      · rw [if_pos ⟨hc, hlt⟩]
        exact ih _ (fun c' hc' ↦ hl c' (by simp [hc'])) hlt
      · rw [if_neg fun h ↦ hlt h.2, hnone, if_neg]
        exact fun h ↦ hlt ((le_ofDigitChars l _).trans_lt h)
  intro s hs hdigits
  rw [decimal, if_neg hs, hfold s.toList 0 hdigits (by decide)]
  split <;> rfl

section Print

variable {lexicalCast : String → Option UInt16} (hcast : ReadsDecimals lexicalCast)

/-- A port is printed as digits. -/
theorem isDigit_of_mem_port {n : ℕ} {c : Char} (h : c ∈ (toString n).toList) : c.isDigit := by
  rw [Nat.toString_eq_repr, Nat.toList_repr] at h
  exact Nat.isDigit_of_mem_toDigits (by decide) (by decide) h

theorem colon_notMem_of_isDigit {s : String} (h : ∀ c ∈ s.toList, c.isDigit) :
    ':' ∉ s.toList := fun hmem ↦ absurd (h ':' hmem) (by decide)

include hcast in
/-- A printed port is read back. -/
theorem lexicalCast_port (port : UInt16) :
    lexicalCast (toString port.toNat) = some port := by
  have hvalue : Nat.ofDigitChars 10 (toString port.toNat).toList 0 = port.toNat := by
    rw [Nat.toString_eq_repr, Nat.toList_repr, Nat.ofDigitChars_ten_toDigits]
  rw [hcast _ (by simp) fun c hc ↦ isDigit_of_mem_port hc, hvalue, if_pos port.toNat_lt,
    UInt16.ofNat_toNat]

include hcast in
/-- Leading zeros do not count. -/
theorem lexicalCast_zeros (m n : ℕ) {digits : String} (hne : digits ≠ "")
    (hdigits : ∀ c ∈ digits.toList, c.isDigit) :
    lexicalCast (String.ofList (List.replicate m '0') ++ digits) =
      lexicalCast (String.ofList (List.replicate n '0') ++ digits) := by
  have hread : ∀ k, lexicalCast (String.ofList (List.replicate k '0') ++ digits) =
      if Nat.ofDigitChars 10 digits.toList 0 < 2 ^ 16 then
        some (UInt16.ofNat (Nat.ofDigitChars 10 digits.toList 0)) else none := by
    intro k
    rw [hcast]
    · simp [Nat.ofDigitChars_append]
    · simp [hne]
    · intro c hc
      rw [String.toList_append, String.toList_ofList, List.mem_append] at hc
      rcases hc with hc | hc
      · rw [List.eq_of_mem_replicate hc]
        decide
      · exact hdigits c hc
  rw [hread m, hread n]

end Print

/-! ### Reading addresses -/

/-- The two parts of a string that is split at its only colon. -/
theorem splitOn_eq_pair_iff {l a b : List Char} :
    l.splitOn ':' = [a, b] ↔ l = a ++ ':' :: b ∧ ':' ∉ a ∧ ':' ∉ b := by
  -- a part with a colon would be split again
  have hsplit : ∀ x : List Char, (x.splitOn ':').length = 1 → ':' ∉ x := by
    intro x hx hmem
    obtain ⟨y, z, rfl⟩ := List.append_of_mem hmem
    rw [List.splitOn_append_cons_self, List.length_append] at hx
    have hy := List.length_pos_of_ne_nil (List.splitOn_ne_nil ':' y)
    have hz := List.length_pos_of_ne_nil (List.splitOn_ne_nil ':' z)
    omega
  constructor
  · intro h
    have hl : l = a ++ ':' :: b := by
      have hjoin : [':'].intercalate (l.splitOn ':') = l := List.intercalate_splitOn ':'
      rw [← hjoin, h]
      simp
    have hlen := congrArg List.length h
    rw [hl, List.splitOn_append_cons_self, List.length_append] at hlen
    have ha := List.length_pos_of_ne_nil (List.splitOn_ne_nil ':' a)
    have hb := List.length_pos_of_ne_nil (List.splitOn_ne_nil ':' b)
    have htwo : [a, b].length = 2 := rfl
    exact ⟨hl, hsplit a (by omega), hsplit b (by omega)⟩
  · rintro ⟨rfl, ha, hb⟩
    rw [List.splitOn_append_cons_self, List.splitOn_eq_singleton ha, List.splitOn_eq_singleton hb]
    rfl

/-- **What `make_address` accepts**: a host and a port, with the only colon between them. -/
theorem makeAddress_eq_ok_iff {lexicalCast : String → Option UInt16} {s : String} {a : Address} :
    makeAddress lexicalCast s = .ok a ↔
      ∃ port, s = a.address ++ ":" ++ port ∧ ':' ∉ a.address.toList ∧ ':' ∉ port.toList ∧
        lexicalCast port = some a.port := by
  have hpair : ∀ host port : String,
      (s.toList.splitOn ':').map String.ofList = [host, port] ↔
        s = host ++ ":" ++ port ∧ ':' ∉ host.toList ∧ ':' ∉ port.toList := by
    intro host port
    have hmap : (s.toList.splitOn ':').map String.ofList = [host, port] ↔
        s.toList.splitOn ':' = [host.toList, port.toList] := by
      have hof : [host, port] = [host.toList, port.toList].map String.ofList := by simp
      rw [hof]
      exact ⟨fun h ↦ List.map_injective_iff.2 (fun x y ↦ String.ofList_inj.1) h, congrArg _⟩
    have hlist : s = host ++ ":" ++ port ↔ s.toList = host.toList ++ ':' :: port.toList := by
      rw [← String.toList_inj]
      simp
    rw [hmap, splitOn_eq_pair_iff, hlist]
  constructor
  · intro h
    rw [makeAddress] at h
    split at h
    · rename_i host port heq
      split at h
      · rename_i p hp
        cases h
        obtain ⟨hs, hhost, hport⟩ := (hpair host port).1 heq
        exact ⟨port, hs, hhost, hport, hp⟩
      · cases h
    · cases h
  · rintro ⟨port, hs, hhost, hport, hcast⟩
    rw [makeAddress, (hpair a.address port).2 ⟨hs, hhost, hport⟩]
    simp only [hcast]

/-- A string with a port behind its last colon: it is accepted if that is the only colon, and the
port can be read. -/
theorem makeAddress_pair_iff {lexicalCast : String → Option UInt16} {host port : String}
    {a : Address} (hport : ':' ∉ port.toList) :
    makeAddress lexicalCast (host ++ ":" ++ port) = .ok a ↔
      ':' ∉ host.toList ∧ host = a.address ∧ lexicalCast port = some a.port := by
  rw [makeAddress_eq_ok_iff]
  constructor
  · rintro ⟨port', heq, hhost', hport', hread⟩
    have hlist : host.toList ++ ':' :: port.toList = a.address.toList ++ ':' :: port'.toList := by
      have h := congrArg String.toList heq
      simpa using h
    -- there is one colon on either side
    have hhost : ':' ∉ host.toList := by
      have hcount := congrArg (List.count ':') hlist
      simp only [List.count_append, List.count_cons_self, List.count_eq_zero.2 hport,
        List.count_eq_zero.2 hhost', List.count_eq_zero.2 hport'] at hcount
      exact List.count_eq_zero.1 (by omega)
    have hsplit := (splitOn_eq_pair_iff.2 ⟨rfl, hhost, hport⟩).symm.trans
      (splitOn_eq_pair_iff.2 ⟨hlist, hhost', hport'⟩)
    obtain ⟨hh, hp⟩ : host.toList = a.address.toList ∧ port.toList = port'.toList := by
      simpa using hsplit
    exact ⟨hhost, String.toList_inj.1 hh, String.toList_inj.1 hp ▸ hread⟩
  · rintro ⟨hhost, rfl, hread⟩
    exact ⟨port, rfl, hhost, hport, hread⟩

section RoundTrip

variable {lexicalCast : String → Option UInt16} (hcast : ReadsDecimals lexicalCast)

include hcast

/-- What is read from the string of an address. -/
theorem makeAddress_toString_iff {a b : Address} :
    makeAddress lexicalCast a.toString = .ok b ↔ ':' ∉ a.address.toList ∧ a = b := by
  rw [Address.toString,
    makeAddress_pair_iff (colon_notMem_of_isDigit fun _ ↦ isDigit_of_mem_port),
    lexicalCast_port hcast]
  obtain ⟨host, port⟩ := a
  obtain ⟨host', port'⟩ := b
  simp

/-- **An address is read back** as it was printed. -/
theorem makeAddress_toString {a : Address} (ha : ':' ∉ a.address.toList) :
    makeAddress lexicalCast a.toString = .ok a :=
  (makeAddress_toString_iff hcast).2 ⟨ha, rfl⟩

end RoundTrip

/-- An address without a colon in its host is known from its string. -/
theorem Address.toString_inj {a b : Address} (ha : ':' ∉ a.address.toList)
    (h : a.toString = b.toString) : a = b := by
  have hread := makeAddress_toString readsDecimals_decimal ha
  rw [h] at hread
  exact ((makeAddress_toString_iff readsDecimals_decimal).1 hread).2.symm

/-- A list is read if all of its elements are. -/
theorem mapM_eq_ok_iff {α β ε : Type} {f : α → Except ε β} {l : List α} {l' : List β} :
    l.mapM f = .ok l' ↔ l.map f = l'.map .ok := by
  induction l generalizing l' with
  | nil =>
    rw [List.mapM_nil, List.map_nil, eq_comm (a := []), List.map_eq_nil_iff]
    exact ⟨fun h ↦ (Except.ok.inj h).symm, fun h ↦ congrArg Except.ok h.symm⟩
  | cons x l ih =>
    rw [List.mapM_cons, List.map_cons]
    cases hx : f x with
    | error e => cases l' <;> simp [bind, Except.bind]
    | ok y =>
      cases hl : l.mapM f with
      | error e =>
        refine iff_of_false (by simp [bind, Except.bind]) fun h ↦ ?_
        obtain ⟨y', l'', rfl⟩ := List.exists_cons_of_ne_nil (l := l') (by rintro rfl; cases h)
        rw [List.map_cons, List.cons.injEq] at h
        rw [ih.2 h.2] at hl
        cases hl
      | ok l₁ =>
        have hl₁ := ih.1 hl
        rw [hl₁, ← List.map_cons, List.map_inj_right fun _ _ ↦ Except.ok.inj]
        exact ⟨fun h ↦ Except.ok.inj h, fun h ↦ congrArg Except.ok h⟩

/-- The addresses that are listed, as they are parsed. -/
theorem mem_of_mapM {lexicalCast : String → Option UInt16} {addressList : List String}
    {l : List Address} (h : addressList.mapM (makeAddress lexicalCast) = .ok l) (a : Address) :
    a ∈ l ↔ ∃ s ∈ addressList, makeAddress lexicalCast s = .ok a := by
  rw [← List.mem_map, mapM_eq_ok_iff.1 h]
  simp

theorem accepted_of_mapM {lexicalCast : String → Option UInt16} {addressList : List String}
    {l : List Address} (h : addressList.mapM (makeAddress lexicalCast) = .ok l) {s : String}
    (hs : s ∈ addressList) : ∃ a, makeAddress lexicalCast s = .ok a := by
  have hmem := List.mem_map_of_mem (f := makeAddress lexicalCast) hs
  rw [mapM_eq_ok_iff.1 h] at hmem
  obtain ⟨a, -, ha⟩ := List.mem_map.1 hmem
  exact ⟨a, ha.symm⟩

/-- A list is accepted if each of its strings is. -/
theorem exists_mapM {lexicalCast : String → Option UInt16} {addressList : List String}
    (h : ∀ s ∈ addressList, ∃ a, makeAddress lexicalCast s = .ok a) :
    ∃ l, addressList.mapM (makeAddress lexicalCast) = .ok l := by
  induction addressList with
  | nil => exact ⟨[], rfl⟩
  | cons s addressList ih =>
    obtain ⟨a, ha⟩ := h s (by simp)
    obtain ⟨l, hl⟩ := ih fun s' hs' ↦ h s' (by simp [hs'])
    exact ⟨a :: l, by rw [List.mapM_cons, ha, hl]; rfl⟩

/-- A host that is parsed has no colon. -/
theorem colon_notMem_of_mapM {lexicalCast : String → Option UInt16} {addressList : List String}
    {l : List Address} (h : addressList.mapM (makeAddress lexicalCast) = .ok l) {a : Address}
    (ha : a ∈ l) : ':' ∉ a.address.toList := by
  obtain ⟨s, -, hs⟩ := (mem_of_mapM h a).1 ha
  obtain ⟨-, -, hhost, -⟩ := makeAddress_eq_ok_iff.1 hs
  exact hhost

/-! ### The set of members -/

/-- Two spellings of an address: the port may have leading zeros. -/
inductive Respelled : String → String → Prop
  | refl (s : String) : Respelled s s
  | zeros (host digits : String) (m n : ℕ) (hne : digits ≠ "")
      (hdigits : ∀ c ∈ digits.toList, c.isDigit) :
      Respelled (host ++ ":" ++ (String.ofList (List.replicate m '0') ++ digits))
        (host ++ ":" ++ (String.ofList (List.replicate n '0') ++ digits))

/-- The same addresses, in any order, any number of times and in any spelling. -/
def SameAddresses (addressList addressList' : List String) : Prop :=
  (∀ s ∈ addressList, ∃ s' ∈ addressList', Respelled s s') ∧
    ∀ s' ∈ addressList', ∃ s ∈ addressList, Respelled s s'

theorem Respelled.symm {s s' : String} : Respelled s s' → Respelled s' s
  | .refl s => .refl s
  | .zeros host digits m n hne hdigits => .zeros host digits n m hne hdigits

section Members

variable {lexicalCast : String → Option UInt16} {addressList : List String} {config : Config}
  {l : List Address}

/-- Leading zeros do not change the address. -/
theorem Respelled.makeAddress_eq (hcast : ReadsDecimals lexicalCast) {s s' : String} {a : Address}
    (h : Respelled s s') (ha : makeAddress lexicalCast s = .ok a) :
    makeAddress lexicalCast s' = .ok a := by
  cases h with
  | refl => exact ha
  | zeros host digits m n hne hdigits =>
    have hcolon : ∀ k, ':' ∉ (String.ofList (List.replicate k '0') ++ digits).toList := by
      intro k
      rw [String.toList_append, String.toList_ofList, List.mem_append]
      rintro (hmem | hmem)
      · exact absurd (List.eq_of_mem_replicate hmem) (by decide)
      · exact colon_notMem_of_isDigit hdigits hmem
    obtain ⟨hhost, heq, hread⟩ := (makeAddress_pair_iff (hcolon m)).1 ha
    exact (makeAddress_pair_iff (hcolon n)).2 ⟨hhost, heq,
      (lexicalCast_zeros hcast n m hne hdigits).trans hread⟩

/-- The addresses of another list with the same members. -/
theorem SameAddresses.exists_mapM (hcast : ReadsDecimals lexicalCast) {addressList' : List String}
    (h : SameAddresses addressList addressList')
    (hl : addressList.mapM (makeAddress lexicalCast) = .ok l) :
    ∃ l', addressList'.mapM (makeAddress lexicalCast) = .ok l' ∧ ∀ a, a ∈ l' ↔ a ∈ l := by
  have haccept : ∀ s' ∈ addressList', ∃ a, makeAddress lexicalCast s' = .ok a := by
    intro s' hs'
    obtain ⟨s, hs, hspell⟩ := h.2 s' hs'
    obtain ⟨a, ha⟩ := accepted_of_mapM hl hs
    exact ⟨a, hspell.makeAddress_eq hcast ha⟩
  obtain ⟨l', hl'⟩ := ReplicatedDB.exists_mapM haccept
  refine ⟨l', hl', fun a ↦ ?_⟩
  rw [mem_of_mapM hl', mem_of_mapM hl]
  constructor
  · rintro ⟨s', hs', ha⟩
    obtain ⟨s, hs, hspell⟩ := h.2 s' hs'
    exact ⟨s, hs, hspell.symm.makeAddress_eq hcast ha⟩
  · rintro ⟨s, hs, ha⟩
    obtain ⟨s', hs', hspell⟩ := h.1 s hs
    exact ⟨s', hs', hspell.makeAddress_eq hcast ha⟩

/-- The entry of a listed address. -/
def Address.listed (a : Address) : Node :=
  ⟨a.toString, a.address ++ ":" ++ ToString.toString (a.port.toNat + 1000)⟩

/-- Entries stay. -/
theorem find_insertAddresses_of_some {memberList : MemberList} {key : String} {node : Node}
    (h : memberList.find key = some node) :
    (insertAddresses memberList l).find key = some node := by
  induction l generalizing memberList with
  | nil => exact h
  | cons a l ih =>
    refine @ih (memberList.insert _ _) ?_
    rw [MemberList.find_insert, h]
    split <;> rfl

/-- **The entry of a listed address** is made from that address. -/
theorem find_insertAddresses {memberList : MemberList} {a : Address}
    (hinj : ∀ b ∈ l, b.toString = a.toString → b = a) (hnone : memberList.find a.toString = none)
    (ha : a ∈ l) : (insertAddresses memberList l).find a.toString = some a.listed := by
  induction l generalizing memberList with
  | nil => cases ha
  | cons b l ih =>
    by_cases hkey : b.toString = a.toString
    · obtain rfl := hinj b (by simp) hkey
      refine @find_insertAddresses_of_some l (memberList.insert _ _) _ _ ?_
      rw [MemberList.find_insert, if_pos rfl, hnone]
      rfl
    · have hmem : a ∈ l := (List.mem_cons.1 ha).resolve_left fun h ↦ hkey (h ▸ rfl)
      refine @ih (memberList.insert _ _) (fun b' hb' ↦ hinj b' (by simp [hb'])) ?_ hmem
      rw [MemberList.find_insert, if_neg fun h ↦ hkey h.symm, hnone]

/-- **Who is a member.** A node that lists addresses, and has one without a colon in its host,
starts. Its member list has an entry for each listed address and for its own one, under a string
that is read back as that address; its current node is the entry of its own address; and any other
list of the same addresses gives the same keys. -/
theorem membership (hcast : ReadsDecimals lexicalCast) (hlocal : config.localUbuntu = false)
    (hip : ':' ∉ config.ip.toList) (hl : addressList.mapM (makeAddress lexicalCast) = .ok l) :
    ∃ inst, initializeStaticInstance lexicalCast addressList config = .ok inst ∧
      (∀ key, key ∈ inst.memberList.keys ↔
        ∃ a ∈ insert config.consensusAddress l.toFinset, key = a.toString) ∧
      inst.memberList.keys.length = (insert config.consensusAddress l.toFinset).card ∧
      (∀ a ∈ insert config.consensusAddress l.toFinset,
        makeAddress lexicalCast a.toString = .ok a) ∧
      inst.memberList.find config.consensusAddress.toString = some inst.currentNode ∧
      ∀ addressList', SameAddresses addressList addressList' →
        ∃ inst', initializeStaticInstance lexicalCast addressList' config = .ok inst' ∧
          inst'.memberList.keys = inst.memberList.keys := by
  have hown : ∀ address, ownAddress lexicalCast config address = .ok address := fun address ↦ by
    rw [ownAddress, hlocal]
    rfl
  -- starting with any list
  have hstart : ∀ {addressList l}, addressList.mapM (makeAddress lexicalCast) = .ok l →
      ∃ inst, initializeStaticInstance lexicalCast addressList config = .ok inst ∧
        (∀ key, key ∈ inst.memberList.keys ↔
          ∃ a ∈ insert config.consensusAddress l.toFinset, key = a.toString) ∧
        inst.memberList.find config.consensusAddress.toString = some inst.currentNode := by
    intro addressList l hl
    have hfound : ∃ inst, initializeStaticInstance lexicalCast addressList config = .ok inst ∧
        inst.memberList.find config.consensusAddress.toString = some inst.currentNode := by
      rcases hfind : (insertAddresses {} l).find config.consensusAddress.toString with _ | node
      · refine ⟨_, initialize_eq_ok_iff.2 ⟨l, _, _, hl, hown _, hown _, .inl ⟨hfind, rfl⟩⟩, ?_⟩
        rw [MemberList.find_insert, if_pos rfl, hfind]
        rfl
      · exact ⟨_, initialize_eq_ok_iff.2 ⟨l, _, _, hl, hown _, hown _, .inr ⟨node, hfind, rfl⟩⟩,
          hfind⟩
    obtain ⟨inst, hinst, hfind⟩ := hfound
    refine ⟨inst, hinst, fun key ↦ ?_, hfind⟩
    obtain ⟨-, l', own, hl', hown', hkeys⟩ := mem_keys_initialize hinst
    obtain rfl := Except.ok.inj (hl'.symm.trans hl)
    obtain rfl := Except.ok.inj (hown'.symm.trans (hown _))
    rw [hkeys]
    simp
  obtain ⟨inst, hinst, hkeys, hfind⟩ := hstart hl
  have hcolon : ∀ a ∈ insert config.consensusAddress l.toFinset, ':' ∉ a.address.toList := by
    intro a ha
    rcases Finset.mem_insert.1 ha with rfl | ha
    · exact hip
    · exact colon_notMem_of_mapM hl (List.mem_toFinset.1 ha)
  refine ⟨inst, hinst, hkeys, ?_, fun a ha ↦ makeAddress_toString hcast (hcolon a ha), hfind,
    fun addressList' hsame ↦ ?_⟩
  · -- addresses are as many as their strings
    have himage : inst.memberList.keys.toFinset =
        (insert config.consensusAddress l.toFinset).image Address.toString := by
      ext key
      rw [List.mem_toFinset, hkeys, Finset.mem_image]
      simp only [eq_comm]
    rw [← List.toFinset_card_of_nodup inst.memberList.nodup_keys, himage]
    exact Finset.card_image_of_injOn fun a ha b _ h ↦ Address.toString_inj (hcolon a ha) h
  · obtain ⟨l', hl', hmem⟩ := hsame.exists_mapM hcast hl
    obtain ⟨inst', hinst', hkeys', -⟩ := hstart hl'
    refine ⟨inst', hinst', MemberList.keys_ext fun key ↦ ?_⟩
    have hset : l'.toFinset = l.toFinset := by
      ext a
      rw [List.mem_toFinset, List.mem_toFinset, hmem]
    rw [hkeys', hkeys, hset]

end Members

/-- A node lists one of its addresses twice, in two spellings. Neither the spelling nor the order
changes its keys. -/
theorem membership_respelled :
    ∃ inst, initializeStaticInstance decimal ["b:2", "a:1", "a:01"]
        { ip := "a", portConsensus := 1 } = .ok inst ∧ inst.memberList.keys.length = 2 ∧
      ∃ inst', initializeStaticInstance decimal ["a:1", "b:002"]
          { ip := "a", portConsensus := 1 } = .ok inst' ∧
        inst'.memberList.keys = inst.memberList.keys := by
  have hread : ["b:2", "a:1", "a:01"].mapM (makeAddress decimal) =
      .ok [⟨"b", 2⟩, ⟨"a", 1⟩, ⟨"a", 1⟩] := rfl
  have hlocal : ({ ip := "a", portConsensus := 1 } : Config).localUbuntu = false := rfl
  obtain ⟨inst, hinst, -, hlen, -, -, hsame⟩ :=
    membership readsDecimals_decimal hlocal (by decide) hread
  have hspell : ∀ m n, Respelled ("b" ++ ":" ++ (String.ofList (List.replicate m '0') ++ "2"))
      ("b" ++ ":" ++ (String.ofList (List.replicate n '0') ++ "2")) := fun m n ↦
    .zeros "b" "2" m n (by decide) (by simp)
  refine ⟨inst, hinst, hlen, hsame _ ⟨?_, ?_⟩⟩
  · simp only [List.forall_mem_cons]
    exact ⟨⟨"b:002", by simp, hspell 0 2⟩, ⟨"a:1", by simp, .refl _⟩,
      ⟨"a:1", by simp, .zeros "a" "1" 1 0 (by decide) (by simp)⟩, by simp⟩
  · simp only [List.forall_mem_cons]
    exact ⟨⟨"a:1", by simp, .refl _⟩, ⟨"b:2", by simp, hspell 0 2⟩, by simp⟩

/-! ### Database endpoints -/

/-- The host of a node's own addresses: locally on Ubuntu, the ip is 127.0.1.1. -/
def Config.ownHost (config : Config) : String :=
  if config.localUbuntu then "127.0.1.1" else config.ip

/-- The list has the address. -/
def Lists (lexicalCast : String → Option UInt16) (addressList : List String) (a : Address) : Prop :=
  ∃ s ∈ addressList, makeAddress lexicalCast s = .ok a

section Endpoints

variable {lexicalCast : String → Option UInt16} {addressList : List String} {config : Config}
  {inst : Instance}

theorem ownAddress_eq (hcast : ReadsDecimals lexicalCast) (port : UInt16) :
    ownAddress lexicalCast config ⟨config.ip, port⟩ = .ok ⟨config.ownHost, port⟩ := by
  rw [ownAddress, Config.ownHost]
  split
  · have hcolon : ':' ∉ "127.0.1.1".toList := by decide
    exact makeAddress_toString hcast (a := ⟨"127.0.1.1", port⟩) hcolon
  · rfl

/-- Two database endpoints at one host. -/
theorem endpoint_inj {host : String} {m n : ℕ} :
    host ++ ":" ++ toString m = host ++ ":" ++ toString n ↔ m = n := by
  rw [String.append_right_inj]
  constructor
  · intro h
    have hvalue := congrArg (fun s : String ↦ Nat.ofDigitChars 10 s.toList 0) h
    simpa [Nat.toString_eq_repr] using hvalue
  · exact congrArg _

/-- The entry of a listed address, in the member list of a node that has started. -/
theorem find_of_lists (h : initializeStaticInstance lexicalCast addressList config = .ok inst)
    {a : Address} (ha : Lists lexicalCast addressList a) :
    inst.memberList.find a.toString = some a.listed := by
  obtain ⟨l, own, db, hl, -, -, hinst⟩ := initialize_eq_ok_iff.1 h
  have hmem : a ∈ l := (mem_of_mapM hl a).2 ha
  have hfind : (insertAddresses {} l).find a.toString = some a.listed :=
    find_insertAddresses (fun b hb heq ↦ Address.toString_inj (colon_notMem_of_mapM hl hb) heq) rfl
      hmem
  rcases hinst with ⟨-, rfl⟩ | ⟨node, -, rfl⟩
  · rw [MemberList.find_insert, hfind]
    split <;> rfl
  · exact hfind

/-- The entry of a node that has inserted itself. -/
theorem find_of_not_lists (hcast : ReadsDecimals lexicalCast)
    (h : initializeStaticInstance lexicalCast addressList config = .ok inst)
    (hnot : ¬ Lists lexicalCast addressList ⟨config.ownHost, config.portConsensus⟩) :
    inst.memberList.find (Address.toString ⟨config.ownHost, config.portConsensus⟩) =
      some ⟨Address.toString ⟨config.ownHost, config.portConsensus⟩,
        Address.toString ⟨config.ownHost, config.portDatabase⟩⟩ := by
  obtain ⟨l, own, db, hl, hown, hdb, hinst⟩ := initialize_eq_ok_iff.1 h
  obtain rfl := Except.ok.inj ((ownAddress_eq hcast _).symm.trans hown)
  obtain rfl := Except.ok.inj ((ownAddress_eq hcast _).symm.trans hdb)
  have hnone : (insertAddresses {} l).find
      (Address.toString ⟨config.ownHost, config.portConsensus⟩) = none := by
    rw [MemberList.find_eq_none_iff, mem_keys_insertAddresses]
    rintro (hmem | ⟨a, ha, heq⟩)
    · cases hmem
    · refine hnot ((mem_of_mapM hl _).1 ?_)
      rwa [← Address.toString_inj (colon_notMem_of_mapM hl ha) heq.symm]
  rcases hinst with ⟨-, rfl⟩ | ⟨node, hfind, -⟩
  · rw [MemberList.find_insert, if_pos rfl, hnone]
    rfl
  · rw [hnone] at hfind
    cases hfind

end Endpoints

/-- **Database endpoints.** Every node that lists the consensus address of a member assumes that
its database port is 1000 above. That is where the member serves, exactly if its configuration
follows the assumption; it is a port, exactly if the consensus port is at most 64535; and a member
that has found itself in a list has the entry it would have inserted, exactly if its configuration
follows the assumption. -/
theorem Deployment.databaseEndpoint_iff {ι : Type} (D : Deployment ι)
    (hcast : ReadsDecimals D.lexicalCast) {i j : ι}
    (hlists : Lists D.lexicalCast (D.config j).cluster (D.config i).consensusAddress) :
    D.self i ∈ D.keys j ∧
    (D.node j (D.self i)).databaseEndpoint =
      (D.config i).ip ++ ":" ++ toString ((D.config i).portConsensus.toNat + 1000) ∧
    ((D.node j (D.self i)).databaseEndpoint = (D.config i).databaseAddress.toString ↔
      (D.config i).portDatabase.toNat = (D.config i).portConsensus.toNat + 1000) ∧
    ((∃ port : UInt16, (D.node j (D.self i)).databaseEndpoint =
        Address.toString ⟨(D.config i).ip, port⟩) ↔
      (D.config i).portConsensus.toNat ≤ 64535) ∧
    ∀ found inserted addressList addressList',
      initializeStaticInstance D.lexicalCast addressList (D.config i) = .ok found →
      Lists D.lexicalCast addressList ⟨(D.config i).ownHost, (D.config i).portConsensus⟩ →
      initializeStaticInstance D.lexicalCast addressList' (D.config i) = .ok inserted →
      ¬ Lists D.lexicalCast addressList' ⟨(D.config i).ownHost, (D.config i).portConsensus⟩ →
        (found.memberList.find (Address.toString
            ⟨(D.config i).ownHost, (D.config i).portConsensus⟩) =
          inserted.memberList.find (Address.toString
            ⟨(D.config i).ownHost, (D.config i).portConsensus⟩) ↔
        (D.config i).portDatabase.toNat = (D.config i).portConsensus.toNat + 1000) := by
  have hfind := find_of_lists (D.accepted j) hlists
  have hnode : D.node j (D.self i) = (D.config i).consensusAddress.listed := by
    rw [Deployment.node, Deployment.self, hfind]
    rfl
  have hserves : ∀ port : UInt16, (D.config i).consensusAddress.listed.databaseEndpoint =
      Address.toString ⟨(D.config i).ip, port⟩ ↔
        port.toNat = (D.config i).portConsensus.toNat + 1000 := fun port ↦
    endpoint_inj.trans eq_comm
  rw [hnode]
  refine ⟨MemberList.mem_keys_of_find hfind, rfl, hserves _, ?_, ?_⟩
  · constructor
    · rintro ⟨port, hport⟩
      have hlt := port.toNat_lt
      rw [(hserves port).1 hport] at hlt
      omega
    · intro hle
      refine ⟨UInt16.ofNat ((D.config i).portConsensus.toNat + 1000), (hserves _).2 ?_⟩
      rw [UInt16.toNat_ofNat']
      omega
  · intro found inserted addressList addressList' hfound hlisted hinserted hnot
    rw [find_of_lists hfound hlisted, find_of_not_lists hcast hinserted hnot]
    simp only [Address.listed, Option.some.injEq, Node.mk.injEq, true_and]
    exact endpoint_inj.trans eq_comm

/-- Two nodes on one machine, started with these ports for their databases. -/
def portsConfig (portDatabase : UInt16) : Fin 2 → Config
  | 0 => { ip := "a", cluster := ["a:8000", "a:8001"] }
  | 1 => { ip := "a", portConsensus := 8001, portDatabase := portDatabase,
           cluster := ["a:8000", "a:8001"] }

/-- The second port follows the assumption. -/
def followsPorts : Deployment (Fin 2) :=
  .of decimal (portsConfig 9001) (fun i _ ↦ i) (by decide +kernel)

/-- The second port is the default one. -/
def defaultPorts : Deployment (Fin 2) :=
  .of decimal (portsConfig 9000) (fun i _ ↦ i) (by decide +kernel)

theorem databaseEndpoint_followsPorts :
    (followsPorts.node 0 (followsPorts.self 1)).databaseEndpoint =
      (followsPorts.config 1).databaseAddress.toString := by
  have hlists : Lists decimal ["a:8000", "a:8001"] ⟨"a", 8001⟩ := ⟨"a:8001", by simp, rfl⟩
  exact (followsPorts.databaseEndpoint_iff readsDecimals_decimal (i := 1) (j := 0)
    hlists).2.2.1.2 rfl

/-- The first node looks for the database of the second one where nobody listens. -/
theorem databaseEndpoint_defaultPorts :
    (∀ i j, Lists decimal (defaultPorts.config j).cluster
      (defaultPorts.config i).consensusAddress) ∧
    (defaultPorts.node 0 (defaultPorts.self 1)).databaseEndpoint = "a:9001" ∧
    (defaultPorts.config 1).databaseAddress.toString = "a:9000" := by
  refine ⟨fun i j ↦ ?_, by decide +kernel, by decide⟩
  have hlist : ∀ j, (defaultPorts.config j).cluster = ["a:8000", "a:8001"] :=
    Fin.forall_fin_two.2 ⟨rfl, rfl⟩
  rw [hlist j]
  revert i
  exact Fin.forall_fin_two.2 ⟨⟨"a:8000", by simp, rfl⟩, ⟨"a:8001", by simp, rfl⟩⟩

end ReplicatedDB
