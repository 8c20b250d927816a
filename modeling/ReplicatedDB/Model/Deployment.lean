import ReplicatedDB.Model.Procedures
import ReplicatedDB.Rpc.Readdress

/-!
# Deployments

In a `Cluster` all nodes share one member list. In general every node is started with a
configuration of its own, and `initializeStaticInstance` makes the member list of the node from it:
the addresses that are listed, as they are parsed, and the node's own address.

A node is listed by others under one name, and names itself by another one (`self`), the address
`getAddress` of its configuration; which node is reached at an address is up to the network. A
`Deployment` says all this, and its nodes run the same procedures as those of a cluster, each with
its own member list (`Deployment.service`).
-/

namespace ReplicatedDB

open Rpc

/-! ### Addresses and configurations -/

/-- `utility::parse::Address`; a port is an `unsigned short`. -/
structure Address where
  address : String
  port : UInt16
deriving DecidableEq

/-- `Address::toString`. -/
def Address.toString (a : Address) : String := a.address ++ ":" ++ ToString.toString a.port.toNat

theorem Address.toString_ne_empty (a : Address) : a.toString ≠ "" := by
  intro h
  have hlen := congrArg String.length h
  simp [Address.toString] at hlen

/-- `utility::parse::Config`, as far as the nodes use it, with the defaults of its options. -/
structure Config where
  ip : String
  portDatabase : UInt16 := 9000
  portConsensus : UInt16 := 8000
  cluster : List String := []
  flags : Flags := {}
  localUbuntu : Bool := false

namespace Config

variable (config : Config)

/-- `getAddress<app::Service::Consensus>()`. -/
def consensusAddress : Address := ⟨config.ip, config.portConsensus⟩

/-- `getAddress<app::Service::Database>()`. -/
def databaseAddress : Address := ⟨config.ip, config.portDatabase⟩

end Config

/-- What `initializeStaticInstance` throws. -/
inductive InitError where
  /-- `validation_error(validation_error::invalid_option_value, option, value)`. -/
  | invalidOptionValue (option value : String)
  /-- `bad_lexical_cast`. -/
  | badLexicalCast
deriving DecidableEq

/-- `make_address`: the string is split at every `":"`. The port is read by
`boost::lexical_cast<unsigned short>`, which is a parameter. -/
def makeAddress (lexicalCast : String → Option UInt16) (addressAndPort : String) :
    Except InitError Address :=
  match (addressAndPort.toList.splitOn ':').map String.ofList with
  | [address, port] =>
    match lexicalCast port with
    | some port => .ok ⟨address, port⟩
    | none => .error .badLexicalCast
  | _ => .error (.invalidOptionValue "cluster.address" addressAndPort)

/-! ### Member lists -/

/-- `app::Node`: the addresses of its endpoints. -/
structure Node where
  consensusEndpoint : String
  databaseEndpoint : String
deriving DecidableEq

/-- `Cluster::memberList`, a map in the order of its keys. -/
structure MemberList where
  entries : List (String × Node) := []
  sorted : entries.Pairwise fun e e' ↦ e.1 < e'.1 := by simp

namespace MemberList

/-- Insert an entry, unless its key is there. -/
def insertEntry (e : String × Node) : List (String × Node) → List (String × Node)
  | [] => [e]
  | e' :: l => if e.1 < e'.1 then e :: e' :: l else if e.1 = e'.1 then e' :: l
    else e' :: insertEntry e l

theorem mem_keys_insertEntry {e : String × Node} {key : String} {l : List (String × Node)} :
    key ∈ (insertEntry e l).map Prod.fst ↔ key = e.1 ∨ key ∈ l.map Prod.fst := by
  induction l with
  | nil => simp [insertEntry]
  | cons e' l ih =>
    rw [insertEntry]
    split
    · simp
    · split
      · rename_i heq
        simp [heq]
      · rw [List.map_cons, List.mem_cons, ih, List.map_cons, List.mem_cons, or_left_comm]

theorem pairwise_insertEntry {e : String × Node} {l : List (String × Node)}
    (h : l.Pairwise fun e e' ↦ e.1 < e'.1) :
    (insertEntry e l).Pairwise fun e e' ↦ e.1 < e'.1 := by
  induction l with
  | nil => exact List.pairwise_singleton _ _
  | cons e' l ih =>
    obtain ⟨hhead, htail⟩ := List.pairwise_cons.1 h
    rw [insertEntry]
    split
    · rename_i hlt
      refine List.pairwise_cons.2 ⟨fun x hx ↦ ?_, h⟩
      rcases List.mem_cons.1 hx with rfl | hx
      · exact hlt
      · exact hlt.trans (hhead x hx)
    · split
      · exact h
      · rename_i hlt hne
        refine List.pairwise_cons.2 ⟨fun x hx ↦ ?_, ih htail⟩
        rcases mem_keys_insertEntry.1 (List.mem_map_of_mem hx) with hkey | hkey
        · rw [hkey]
          exact lt_of_le_of_ne (not_lt.1 hlt) (Ne.symm hne)
        · obtain ⟨y, hy, heq⟩ := List.mem_map.1 hkey
          rw [← heq]
          exact hhead y hy

/-- `std::map::insert`. -/
def insert (l : MemberList) (key : String) (node : Node) : MemberList :=
  ⟨insertEntry (key, node) l.entries, pairwise_insertEntry l.sorted⟩

/-- The keys, in order. -/
def keys (l : MemberList) : List String := l.entries.map Prod.fst

/-- `std::map::find`. -/
def find (l : MemberList) (key : String) : Option Node := l.entries.lookup key

@[simp] theorem keys_empty : keys {} = [] := rfl

@[simp] theorem mem_keys_insert {l : MemberList} {key key' : String} {node : Node} :
    key ∈ (l.insert key' node).keys ↔ key = key' ∨ key ∈ l.keys :=
  mem_keys_insertEntry

theorem nodup_keys (l : MemberList) : l.keys.Nodup :=
  List.pairwise_map.2 (l.sorted.imp fun h ↦ h.ne)

theorem mem_keys_of_find {l : MemberList} {key : String} {node : Node}
    (h : l.find key = some node) : key ∈ l.keys := by
  obtain ⟨l₁, l₂, hl, -⟩ := List.lookup_eq_some_iff.1 h
  rw [keys, hl]
  simp

theorem find_eq_none_iff {l : MemberList} {key : String} : l.find key = none ↔ key ∉ l.keys := by
  rw [find, List.lookup_eq_none_iff, keys, List.mem_map]
  simp only [bne_iff_ne]
  constructor
  · rintro h ⟨e, he, rfl⟩
    exact h e he rfl
  · intro h e he heq
    exact h ⟨e, he, heq.symm⟩

theorem lookup_insertEntry {e : String × Node} {key : String} {l : List (String × Node)}
    (h : l.Pairwise fun e e' ↦ e.1 < e'.1) :
    (insertEntry e l).lookup key =
      if key = e.1 then some ((l.lookup key).getD e.2) else l.lookup key := by
  induction l with
  | nil =>
    rw [insertEntry, List.lookup_cons]
    split <;> simp_all
  | cons e' l ih =>
    obtain ⟨hhead, htail⟩ := List.pairwise_cons.1 h
    rw [insertEntry]
    split
    · rename_i hlt
      rw [List.lookup_cons]
      by_cases hkey : key = e.1
      · -- the key is smaller than those that are there
        have hnone : (e' :: l).lookup key = none := by
          rw [List.lookup_eq_none_iff]
          intro x hx
          rw [bne_iff_ne, hkey]
          rcases List.mem_cons.1 hx with rfl | hx
          · exact hlt.ne
          · exact (hlt.trans (hhead x hx)).ne
        rw [if_pos hkey, hnone, hkey]
        simp
      · rw [if_neg hkey, beq_false_of_ne hkey]
    · split
      · rename_i heq
        by_cases hkey : key = e.1
        · rw [if_pos hkey, List.lookup_cons, hkey, heq, beq_self_eq_true]
          rfl
        · rw [if_neg hkey]
      · rename_i hne
        rw [List.lookup_cons, ih htail, List.lookup_cons]
        by_cases hkey : key = e'.1
        · have hother : ¬ e'.1 = e.1 := fun heq ↦ hne heq.symm
          simp [hkey, hother]
        · rw [beq_false_of_ne hkey]

/-- An entry that is there stays. -/
theorem find_insert {l : MemberList} {key key' : String} {node : Node} :
    (l.insert key' node).find key =
      if key = key' then some ((l.find key).getD node) else l.find key :=
  lookup_insertEntry l.sorted

/-- The keys are known from which strings they are. -/
theorem keys_ext {l l' : MemberList} (h : ∀ key, key ∈ l.keys ↔ key ∈ l'.keys) :
    l.keys = l'.keys := by
  have hsorted : ∀ m : MemberList, m.keys.Pairwise (· < ·) := fun m ↦
    List.pairwise_map.2 m.sorted
  exact ((List.perm_ext_iff_of_nodup l.nodup_keys l'.nodup_keys).2 h).eq_of_pairwise'
    (r := (· < ·)) (hsorted l) (hsorted l')

end MemberList

/-! ### Starting a node -/

/-- The static members of `Cluster` that are set once. -/
structure Instance where
  config : Config
  memberList : MemberList
  currentNode : Node

/-- Insert the listed addresses; the database port is assumed to be 1000 above the other one. -/
def insertAddresses (memberList : MemberList) (l : List Address) : MemberList :=
  l.foldl (fun m a ↦ m.insert a.toString
    ⟨a.toString, a.address ++ ":" ++ toString (a.port.toNat + 1000)⟩) memberList

/-- An address of the node itself: locally on Ubuntu, the ip is 127.0.1.1. -/
def ownAddress (lexicalCast : String → Option UInt16) (config : Config) (address : Address) :
    Except InitError Address :=
  if config.localUbuntu then
    makeAddress lexicalCast ("127.0.1.1:" ++ toString address.port.toNat)
  else .ok address

/-- `initializeStaticInstance`. -/
def initializeStaticInstance (lexicalCast : String → Option UInt16) (addressList : List String)
    (config : Config) : Except InitError Instance := do
  let l ← addressList.mapM (makeAddress lexicalCast)
  let memberList := insertAddresses {} l
  -- current node's details
  let addressConsensus ← ownAddress lexicalCast config config.consensusAddress
  let addressDatabase ← ownAddress lexicalCast config config.databaseAddress
  match memberList.find addressConsensus.toString with
  | none =>
    let currentNode : Node := ⟨addressConsensus.toString, addressDatabase.toString⟩
    pure ⟨config, memberList.insert addressConsensus.toString currentNode, currentNode⟩
  | some node => pure ⟨config, memberList, node⟩

theorem mem_keys_insertAddresses {key : String} {memberList : MemberList} {l : List Address} :
    key ∈ (insertAddresses memberList l).keys ↔
      key ∈ memberList.keys ∨ ∃ a ∈ l, key = a.toString := by
  induction l generalizing memberList with
  | nil => simp [insertAddresses]
  | cons a l ih =>
    rw [insertAddresses, List.foldl_cons]
    refine (@ih (memberList.insert _ _)).trans ?_
    rw [MemberList.mem_keys_insert]
    simp only [List.exists_mem_cons_iff]
    rw [or_comm (a := key = a.toString), or_assoc]

/-- **What a node makes of its configuration**: the listed addresses, and an entry of its own
unless it is among them. -/
theorem initialize_eq_ok_iff {lexicalCast : String → Option UInt16} {addressList : List String}
    {config : Config} {inst : Instance} :
    initializeStaticInstance lexicalCast addressList config = .ok inst ↔
      ∃ l own db, addressList.mapM (makeAddress lexicalCast) = .ok l ∧
        ownAddress lexicalCast config config.consensusAddress = .ok own ∧
        ownAddress lexicalCast config config.databaseAddress = .ok db ∧
        ((insertAddresses {} l).find own.toString = none ∧
            inst = ⟨config, (insertAddresses {} l).insert own.toString
              ⟨own.toString, db.toString⟩, ⟨own.toString, db.toString⟩⟩ ∨
          ∃ node, (insertAddresses {} l).find own.toString = some node ∧
            inst = ⟨config, insertAddresses {} l, node⟩) := by
  rw [initializeStaticInstance]
  rcases hl : addressList.mapM (makeAddress lexicalCast) with _ | l
  case error => simp [bind, Except.bind]
  rcases hown : ownAddress lexicalCast config config.consensusAddress with _ | own
  case error => simp [bind, Except.bind]
  rcases hdb : ownAddress lexicalCast config config.databaseAddress with _ | db
  case error => simp [bind, Except.bind]
  rcases hfind : (insertAddresses {} l).find own.toString with _ | node
  · simp [bind, Except.bind, pure, Except.pure, hfind, eq_comm]
  · simp [bind, Except.bind, pure, Except.pure, hfind, eq_comm]

/-- **The keys of the member list**: the addresses that are listed, as they are parsed, and an
address of the node itself. -/
theorem mem_keys_initialize {lexicalCast : String → Option UInt16} {addressList : List String}
    {config : Config} {inst : Instance}
    (h : initializeStaticInstance lexicalCast addressList config = .ok inst) :
    inst.config = config ∧ ∃ l own, addressList.mapM (makeAddress lexicalCast) = .ok l ∧
      ownAddress lexicalCast config config.consensusAddress = .ok own ∧
      ∀ key, key ∈ inst.memberList.keys ↔ key = own.toString ∨ ∃ a ∈ l, key = a.toString := by
  obtain ⟨l, own, db, hl, hown, -, hinst⟩ := initialize_eq_ok_iff.1 h
  have hkeys : ∀ key, key ∈ (insertAddresses {} l).keys ↔ ∃ a ∈ l, key = a.toString := fun key ↦
    mem_keys_insertAddresses.trans (by simp)
  rcases hinst with ⟨-, rfl⟩ | ⟨node, hfind, rfl⟩
  · exact ⟨rfl, l, own, hl, hown, fun key ↦ by rw [MemberList.mem_keys_insert, hkeys]⟩
  · refine ⟨rfl, l, own, hl, hown, fun key ↦ ?_⟩
    rw [hkeys]
    have hmem := (hkeys _).1 (MemberList.mem_keys_of_find hfind)
    constructor
    · exact .inr
    · rintro (rfl | hkey)
      · exact hmem
      · exact hkey

/-! ### Nodes with configurations of their own -/

/-- Nodes, each started with a configuration that is accepted, and the network between them. -/
structure Deployment (ι : Type) where
  lexicalCast : String → Option UInt16
  config : ι → Config
  inst : ι → Instance
  accepted : ∀ i, initializeStaticInstance lexicalCast (config i).cluster (config i) = .ok (inst i)
  /-- The node that is reached from a node at an address. Where nobody listens, all calls fail. -/
  listener : ι → String → ι

namespace Deployment

variable {ι : Type}

/-- The deployment with these configurations, if all of them are accepted. -/
def of (lexicalCast : String → Option UInt16) (config : ι → Config) (listener : ι → String → ι)
    (h : ∀ i, (initializeStaticInstance lexicalCast (config i).cluster (config i)).isOk = true) :
    Deployment ι where
  lexicalCast := lexicalCast
  config := config
  inst i :=
    match hi : initializeStaticInstance lexicalCast (config i).cluster (config i) with
    | .ok inst => inst
    | .error _ => by
      have := h i
      rw [hi] at this
      cases this
  accepted i := by
    have := h i
    split
    · assumption
    · rename_i hi
      rw [hi] at this
      cases this
  listener := listener

variable (D : Deployment ι) (i : ι)

/-- `Cluster::config->getAddress<app::Service::Consensus>().toString()`. -/
def self : String := (D.config i).consensusAddress.toString

/-- The keys of the `memberList` of the node. -/
def keys : List String := (D.inst i).memberList.keys

/-- What the node knows of the cluster. -/
def cluster : Cluster where
  memberList := D.keys i
  nodup := (D.inst i).memberList.nodup_keys
  ne_nil := by
    obtain ⟨-, l, own, -, -, hkeys⟩ := mem_keys_initialize (D.accepted i)
    exact List.ne_nil_of_mem ((hkeys own.toString).2 (.inl rfl))
  nonempty hmem := by
    obtain ⟨-, l, own, -, -, hkeys⟩ := mem_keys_initialize (D.accepted i)
    rcases (hkeys "").1 hmem with heq | ⟨a, -, heq⟩
    · exact own.toString_ne_empty heq.symm
    · exact a.toString_ne_empty heq.symm
  flags _ := (D.config i).flags

/-- The entry of a key of the member list. -/
def node (key : String) : Node := ((D.inst i).memberList.find key).getD ⟨key, key⟩

/-- Where calls go: elections to the consensus endpoint of the current node, other calls to an
endpoint of the member they are addressed to. -/
def routes : Routes Db ι where
  act
    | .getDB, key => D.listener i (D.node i key).databaseEndpoint
    | _, key => D.listener i (D.node i key).consensusEndpoint
  task
    | .electLeader _ _, _ => D.listener i (D.inst i).currentNode.consensusEndpoint
    | _, key => D.listener i (D.node i key).databaseEndpoint

/-- The service run by the nodes of a deployment. -/
abbrev service : Service (Db.withAddr ι) where
  State := Replica
  act := act
  lost := lost
  failed := { status := .unavailable }
  body i t := (body (D.cluster i) (D.self i) t).readdress (D.routes i)
  fresh := {}
  boot := .coordinate

end Deployment

end ReplicatedDB
