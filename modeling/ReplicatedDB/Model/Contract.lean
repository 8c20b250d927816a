import ReplicatedDB.Model.Quorum
import ReplicatedDB.Rpc.Run

/-!
# What the procedures promise

The contract of each procedure, in terms of the calls it has made and the answers it has seen.
The one of `AttemptConsensus` (`attemptEmits`, `attemptReturns`) is all that the results about
the protocol use of that procedure:

* the proposals are `prepareRequest`s for the round it chose, its first call;
* the accept requests are all the same. They carry the request's own value and operation if no
  answer to a proposal reported an accepted entry, and otherwise those of such an answer
  (`Adopts`); they are sent after everyone who answered the ping was sent a proposal;
* the success requests carry what a quorum has accepted (`Carried`), and the result is OK
  exactly when they were sent to all members.
-/

namespace ReplicatedDB

open Rpc

/-- The calls a procedure has made, with their answers. -/
abbrev History := List (Event Db)

/-- In the history `h`, the node `d` was asked for `a` and the answer was `r`. -/
def Heard (h : History) (d : String) (a : Act) (r : a.Ret) : Prop :=
  (⟨.act (some d) a, r⟩ : Event Db) ∈ h

/-- In the history `h`, the node `d` was asked for `a`. -/
def Sent (h : History) (d : String) (a : Act) : Prop := ∃ r, Heard h d a r

theorem Heard.sent {h : History} {d : String} {a : Act} {r : a.Ret} (hr : Heard h d a r) :
    Sent h d a := ⟨r, hr⟩

theorem Heard.mono {h h' : History} (hsub : h ⊆ h') {d : String} {a : Act} {r : a.Ret}
    (hr : Heard h d a r) : Heard h' d a r := hsub hr

theorem Sent.mono {h h' : History} (hsub : h ⊆ h') {d : String} {a : Act} (hr : Sent h d a) :
    Sent h' d a := hr.imp fun _ hr ↦ hr.mono hsub

theorem heard_append_one {h : History} {d d' : String} {a a' : Act} {r : a.Ret} {r' : a'.Ret} :
    Heard (h ++ [⟨.act (some d') a', r'⟩]) d a r ↔
      Heard h d a r ∨ d = d' ∧ (⟨a, r⟩ : Σ a : Act, a.Ret) = ⟨a', r'⟩ := by
  rw [Heard, List.mem_append, List.mem_singleton]
  refine or_congr Iff.rfl ⟨fun heq ↦ ?_, ?_⟩
  · obtain ⟨hc, hr⟩ := Sigma.mk.inj heq
    obtain ⟨hd, rfl⟩ := Call.act.inj hc
    exact ⟨Option.some.inj hd, by rw [eq_of_heq hr]⟩
  · rintro ⟨rfl, heq⟩
    obtain ⟨rfl, hr⟩ := Sigma.mk.inj heq
    rw [eq_of_heq hr]

theorem sent_append_one {h : History} {d d' : String} {a a' : Act} {r' : a'.Ret} :
    Sent (h ++ [⟨.act (some d') a', r'⟩]) d a ↔ Sent h d a ∨ d = d' ∧ a = a' := by
  constructor
  · rintro ⟨r, hr⟩
    rcases heard_append_one.1 hr with hr | ⟨rfl, heq⟩
    · exact .inl hr.sent
    · exact .inr ⟨rfl, congrArg Sigma.fst heq⟩
  · rintro (hr | ⟨rfl, rfl⟩)
    · exact hr.mono (List.subset_append_left _ _)
    · exact ⟨r', heard_append_one.2 (.inr ⟨rfl, rfl⟩)⟩

/-! ### `AttemptConsensus` -/

/-- The round chosen by an attempt, from its first call. -/
def roundOf : History → ℤ
  | ⟨.act none (.getLog _), log⟩ :: _ => Log.size log
  | _ => 0

theorem roundOf_append {h : History} (hne : h ≠ []) (h' : History) :
    roundOf (h ++ h') = roundOf h := by
  cases h with
  | nil => exact absurd rfl hne
  | cons e h =>
    obtain ⟨c, r⟩ := e
    rcases c with ⟨_ | d, a⟩ | ⟨d, t⟩
    · cases a <;> rfl
    · rfl
    · rfl

/-- Requests to other nodes do not choose the round. -/
theorem roundOf_append_act (h : History) (d : String) (a : Act) (x : a.Ret) (h' : History) :
    roundOf (h ++ ⟨.act (some d) a, x⟩ :: h') = roundOf h := by
  cases h with
  | nil => rfl
  | cons e h => exact roundOf_append (List.cons_ne_nil _ _) _

theorem roundOf_nonneg (h : History) : 0 ≤ roundOf h := by
  unfold roundOf
  split
  · exact Int.natCast_nonneg _
  · exact le_rfl

/-- A call of one of the voting phases failed. -/
def Failing (h : History) : Prop :=
  (∃ d st, Heard h d .ping st ∧ ¬ Status.Ok st) ∨
  (∃ d q r, Heard h d (.propose q) r ∧ ¬ Status.Ok r.1) ∨
  ∃ d q r, Heard h d (.accept q) r ∧ ¬ Status.Ok r.1

theorem Failing.mono {h h' : History} (hsub : h ⊆ h') (hf : Failing h) : Failing h' := by
  rcases hf with ⟨d, st, h1, h2⟩ | ⟨d, q, r, h1, h2⟩ | ⟨d, q, r, h1, h2⟩
  · exact .inl ⟨d, st, h1.mono hsub, h2⟩
  · exact .inr (.inl ⟨d, q, r, h1.mono hsub, h2⟩)
  · exact .inr (.inr ⟨d, q, r, h1.mono hsub, h2⟩)

/-- No answer to a proposal reported an accepted entry. -/
def NothingAccepted (h : History) : Prop :=
  ∀ d p (r : Status × Response), Heard h d (.propose p) r → r.1.Ok → r.2.aserverId ≤ 0

/-- An answer to a proposal reported an entry accepted with this operation and value. -/
def ReportedAccepted (h : History) (op : Operation) (value : String) : Prop :=
  ∃ d p, ∃ r : Status × Response, Heard h d (.propose p) r ∧ r.1.Ok ∧ 0 < r.2.aserverId ∧
    op = r.2.op ∧ value = r.2.value

/-- The accept request of an attempt at `r`: its own value, or an accepted one. -/
structure Adopts (r : Request) (h : History) (q : Request) : Prop where
  key : q.key = r.key
  round : q.round = roundOf h
  pserverId : q.pserverId = 1
  value : (q.op = r.op ∧ q.value = r.value ∧ NothingAccepted h) ∨
    ReportedAccepted h q.op q.value

/-- Every member was pinged, and was sent `a` if it answered. -/
def AllSent (members : List String) (h : History) (a : Act) : Prop :=
  ∀ d ∈ members, ∃ st, Heard h d .ping st ∧ (Status.Ok st → Sent h d a)

theorem AllSent.mono {members : List String} {h h' : History} (hsub : h ⊆ h') {a : Act}
    (hall : AllSent members h a) : AllSent members h' a := by
  intro d hd
  obtain ⟨st, hst, hsent⟩ := hall d hd
  exact ⟨st, hst.mono hsub, fun hok ↦ (hsent hok).mono hsub⟩

/-- Somebody was sent the proposal, and so was everyone who answered the ping. -/
def AllAsked (members : List String) (r : Request) (h : History) : Prop :=
  (∃ d, Sent h d (.propose (prepareRequest r (roundOf h)))) ∧
    AllSent members h (.propose (prepareRequest r (roundOf h)))

/-- Everyone who answered the ping was asked to accept `q`, and a quorum has. -/
def Carried (members : List String) (r : Request) (h : History) (q : Request) : Prop :=
  Adopts r h q ∧ AllSent members h (.accept q) ∧ ∃ Q, IsQuorum members Q ∧
    ∀ d ∈ Q, ∃ x : Status × Response, Heard h d (.accept q) x ∧ x.1.Ok

/-- The calls of an attempt. -/
def attemptEmits (members : List String) (r : Request) (h : History) : Call Db → Prop
  | .act none (.getLog key) => key = r.key ∧ h = []
  | .act (some d) .ping => d ∈ members ∧ h ≠ [] ∧ (∀ d' q, ¬ Sent h d' (.propose q))
  | .act (some d) (.propose q) => d ∈ members ∧ q = prepareRequest r (roundOf h) ∧ h ≠ [] ∧
      (∀ d' q', ¬ Sent h d' (.accept q'))
  | .act (some d) (.accept q) => d ∈ members ∧ Adopts r h q ∧ AllAsked members r h ∧
      (∀ d' q', Sent h d' (.accept q') → q' = q) ∧ (∀ d' q', ¬ Sent h d' (.success q'))
  | .act (some d) (.success q) => d ∈ members ∧ AllAsked members r h ∧
      ∃ qa, Carried members r h qa ∧ q = successRequest r.key (acceptResponse qa)
  | _ => False

/-- The result of an attempt. -/
def attemptReturns (members : List String) (r : Request) (h : History) (rep : Reply) : Prop :=
  ((∃ d q, Sent h d (.propose q)) → AllAsked members r h) ∧
  ((rep.status.Ok ∧ ∃ qa, Carried members r h qa ∧ rep.response = acceptResponse qa ∧
      ∀ d ∈ members, Sent h d (.success (successRequest r.key (acceptResponse qa)))) ∨
    (rep = defaultResponse ∧ (∀ d q, ¬ Sent h d (.success q)) ∧ Failing h))

/-- The answers relied on: an OK `accept` echoes its request. -/
def rely : (c : Call Db) → c.Ret → Prop
  | .act _ (.accept q), r => Status.Ok (Prod.fst r) → Prod.snd r = acceptResponse q
  | _, _ => True

section Attempt

variable {members : List String} {r : Request}

/-- The history of an attempt while it pings. -/
structure Pinged (round : ℤ) (h : History) : Prop where
  ne_nil : h ≠ []
  round : roundOf h = round
  noPropose : ∀ d q, ¬ Sent h d (.propose q)
  noAccept : ∀ d q, ¬ Sent h d (.accept q)
  noSuccess : ∀ d q, ¬ Sent h d (.success q)

theorem Pinged.append {round : ℤ} {h : History} (hp : Pinged round h) (d : String)
    (st : Status) : Pinged round (h ++ [⟨.act (some d) Act.ping, st⟩]) where
  ne_nil := by simp
  round := (roundOf_append hp.ne_nil _).trans hp.round
  noPropose d' q hs := by
    rcases sent_append_one.1 hs with hs | ⟨-, heq⟩
    · exact hp.noPropose d' q hs
    · cases heq
  noAccept d' q hs := by
    rcases sent_append_one.1 hs with hs | ⟨-, heq⟩
    · exact hp.noAccept d' q hs
    · cases heq
  noSuccess d' q hs := by
    rcases sent_append_one.1 hs with hs | ⟨-, heq⟩
    · exact hp.noSuccess d' q hs
    · cases heq

/-- The nodes found alive: members that answered, everyone unless a ping failed. -/
structure Live (members : List String) (h : History) (liveNodes : List String) : Prop where
  sublist : liveNodes.Sublist members
  pinged : ∀ d ∈ members, ∃ st, Heard h d .ping st ∧ (Status.Ok st → d ∈ liveNodes)
  all : liveNodes = members ∨ Failing h

theorem pingStage_sat {round : ℤ} {h : History} (hh : Pinged round h) :
    Sat rely (attemptEmits members r)
      (fun h' liveNodes ↦ Pinged round h' ∧ Live members h' liveNodes) (pingStage members) h := by
  refine (Sat.foldlM (fun rest liveNodes h' ↦ ∃ done, members = done ++ rest ∧
    Pinged round h' ∧ Live done h' liveNodes) ?_ members [] h ⟨[], rfl, hh, ?_⟩).mono ?_
  · -- one more ping
    rintro d rest liveNodes h' ⟨done, hsplit, hp, hlive⟩
    refine ⟨⟨by rw [hsplit]; simp, hp.ne_nil, hp.noPropose⟩, fun st _ ↦
      ⟨done ++ [d], by simp [hsplit], hp.append d st, ?_⟩⟩
    have hsub : h' ⊆ h' ++ [⟨.act (some d) Act.ping, st⟩] := List.subset_append_left _ _
    have hnew : Heard (h' ++ [⟨.act (some d) Act.ping, st⟩]) d .ping st :=
      heard_append_one.2 (.inr ⟨rfl, rfl⟩)
    by_cases hst : Status.Ok st
    · rw [if_pos hst]
      refine ⟨hlive.sublist.append (List.Sublist.refl _), fun d' hd' ↦ ?_,
        hlive.all.imp (fun heq ↦ by rw [heq]) (fun hf ↦ hf.mono hsub)⟩
      rcases List.mem_append.1 hd' with hd' | hd'
      · obtain ⟨st', hst', hlive'⟩ := hlive.pinged d' hd'
        exact ⟨st', hst'.mono hsub, fun hok ↦ List.mem_append_left _ (hlive' hok)⟩
      · obtain rfl := List.mem_singleton.1 hd'
        exact ⟨st, hnew, fun _ ↦ by simp⟩
    · rw [if_neg hst]
      refine ⟨hlive.sublist.trans (List.sublist_append_left _ _), fun d' hd' ↦ ?_,
        .inr (.inl ⟨d, st, hnew, hst⟩)⟩
      rcases List.mem_append.1 hd' with hd' | hd'
      · obtain ⟨st', hst', hlive'⟩ := hlive.pinged d' hd'
        exact ⟨st', hst'.mono hsub, hlive'⟩
      · obtain rfl := List.mem_singleton.1 hd'
        exact ⟨st, hnew, fun hok ↦ absurd hok hst⟩
  · exact ⟨List.Sublist.refl _, nofun, .inl rfl⟩
  · rintro h' liveNodes ⟨done, hsplit, hp, hlive⟩
    rw [List.append_nil] at hsplit
    subst hsplit
    exact ⟨hp, hlive⟩

/-- The history of an attempt while it proposes; `asked` are the nodes sent a proposal. -/
structure Proposed (members : List String) (r : Request) (liveNodes : List String)
    (asked : List String) (h : History) : Prop where
  ne_nil : h ≠ []
  live : Live members h liveNodes
  sent : ∀ d ∈ asked, Sent h d (.propose (prepareRequest r (roundOf h)))
  noAccept : ∀ d q, ¬ Sent h d (.accept q)
  noSuccess : ∀ d q, ¬ Sent h d (.success q)

/-- What the variables of the proposal stage say about the answers. -/
structure Proposals.Sum (v : Proposals) (asked : List String) (h : History) : Prop where
  nonneg : 0 ≤ v.acceptedId
  max : ∀ d p (x : Status × Response), Heard h d (.propose p) x → x.1.Ok →
    x.2.aserverId ≤ v.acceptedId
  reported : 0 < v.acceptedId → ReportedAccepted h v.acceptedOp v.acceptedValue
  count : v.numAcceptedProposals = asked.length ∨ Failing h

theorem ReportedAccepted.mono {h h' : History} (hsub : h ⊆ h') {op : Operation} {value : String}
    (hr : ReportedAccepted h op value) : ReportedAccepted h' op value := by
  obtain ⟨d, p, x, hx, h1, h2, h3, h4⟩ := hr
  exact ⟨d, p, x, hx.mono hsub, h1, h2, h3, h4⟩

theorem Live.mono {h h' : History} {liveNodes : List String} (hl : Live members h liveNodes)
    (hsub : h ⊆ h') : Live members h' liveNodes where
  sublist := hl.sublist
  pinged d hd := by
    obtain ⟨st, hst, hlive⟩ := hl.pinged d hd
    exact ⟨st, hst.mono hsub, hlive⟩
  all := hl.all.imp_right fun hf ↦ hf.mono hsub

/-- What was sent to all live nodes was sent to everyone who answered the ping. -/
theorem Live.allSent {h : History} {liveNodes : List String} (hl : Live members h liveNodes)
    {a : Act} (hsent : ∀ d ∈ liveNodes, Sent h d a) : AllSent members h a := by
  intro d hd
  obtain ⟨st, hst, hlive⟩ := hl.pinged d hd
  exact ⟨st, hst, fun hok ↦ hsent d (hlive hok)⟩

/-- One more answer to a proposal. -/
theorem Proposals.Sum.add {v : Proposals} {asked : List String} {h : History}
    (hv : v.Sum asked h) (d : String) (p : Request) (x : Status × Response) :
    (v.add x).Sum (asked ++ [d]) (h ++ [⟨.act (some d) (Act.propose p), x⟩]) := by
  have hsub : h ⊆ h ++ [⟨.act (some d) (Act.propose p), x⟩] := List.subset_append_left _ _
  have hnew : Heard (h ++ [⟨.act (some d) (Act.propose p), x⟩]) d (.propose p) x :=
    heard_append_one.2 (.inr ⟨rfl, rfl⟩)
  -- an answer is an old one or the new one
  have hcases : ∀ d' p' (x' : Status × Response),
      Heard (h ++ [⟨.act (some d) (Act.propose p), x⟩]) d' (.propose p') x' →
        Heard h d' (.propose p') x' ∨ x' = x := by
    intro d' p' x' hx'
    rcases heard_append_one.1 hx' with hx' | ⟨-, heq⟩
    · exact .inl hx'
    · obtain ⟨hp, hx⟩ := Sigma.mk.inj heq
      obtain rfl := Act.propose.inj hp
      exact .inr (eq_of_heq hx)
  by_cases hok : x.1.Ok
  · by_cases hgt : x.2.aserverId > v.acceptedId
    · rw [Proposals.add, if_pos hok, if_pos hgt]
      have h0 := hv.nonneg
      refine ⟨h0.trans hgt.le, fun d' p' x' hx' hok' ↦ ?_, fun _ ↦ ⟨d, p, x, hnew, hok,
        h0.trans_lt hgt, rfl, rfl⟩, ?_⟩
      · rcases hcases d' p' x' hx' with hx' | rfl
        · exact (hv.max d' p' x' hx' hok').trans hgt.le
        · exact le_rfl
      · exact hv.count.imp (fun hc ↦ by simp [hc]) fun hf ↦ hf.mono hsub
    · rw [Proposals.add, if_pos hok, if_neg hgt]
      refine ⟨hv.nonneg, fun d' p' x' hx' hok' ↦ ?_, fun h0 ↦ (hv.reported h0).mono hsub, ?_⟩
      · rcases hcases d' p' x' hx' with hx' | rfl
        · exact hv.max d' p' x' hx' hok'
        · exact not_lt.1 hgt
      · exact hv.count.imp (fun hc ↦ by simp [hc]) fun hf ↦ hf.mono hsub
  · rw [Proposals.add, if_neg hok]
    refine ⟨hv.nonneg, fun d' p' x' hx' hok' ↦ ?_, fun h0 ↦ (hv.reported h0).mono hsub,
      .inr (.inr (.inl ⟨d, p, x, hnew, hok⟩))⟩
    rcases hcases d' p' x' hx' with hx' | rfl
    · exact hv.max d' p' x' hx' hok'
    · exact absurd hok' hok

theorem proposeStage_sat {h : History} {liveNodes : List String} {round : ℤ}
    (hh : Pinged round h) (hlive : Live members h liveNodes) :
    Sat rely (attemptEmits members r)
      (fun h' (v : Proposals) ↦ roundOf h' = round ∧
        Proposed members r liveNodes liveNodes h' ∧ v.Sum liveNodes h')
      (proposeStage (prepareRequest r round) liveNodes) h := by
  refine (Sat.foldlM (fun rest (v : Proposals) h' ↦ ∃ asked, liveNodes = asked ++ rest ∧
    roundOf h' = round ∧ Proposed members r liveNodes asked h' ∧ v.Sum asked h') ?_
    liveNodes {} h ⟨[], rfl, hh.round, ?_, ?_⟩).mono ?_
  · -- one more proposal
    rintro d rest v h' ⟨asked, hsplit, hround', hp, hv⟩
    refine ⟨⟨hp.live.sublist.subset (by rw [hsplit]; simp), by rw [hround'], hp.ne_nil,
      hp.noAccept⟩, fun x _ ↦ ⟨asked ++ [d], by simp [hsplit], ?_, ?_, hv.add d _ x⟩⟩
    · rw [roundOf_append hp.ne_nil, hround']
    · refine ⟨by simp, hp.live.mono (List.subset_append_left _ _), fun d' hd' ↦ ?_,
        fun d' q hs ↦ ?_, fun d' q hs ↦ ?_⟩
      · rw [roundOf_append hp.ne_nil, sent_append_one, hround']
        rcases List.mem_append.1 hd' with hd' | hd'
        · exact .inl (hround' ▸ hp.sent d' hd')
        · exact .inr ⟨List.mem_singleton.1 hd', rfl⟩
      · rcases sent_append_one.1 hs with hs | ⟨-, heq⟩
        · exact hp.noAccept d' q hs
        · cases heq
      · rcases sent_append_one.1 hs with hs | ⟨-, heq⟩
        · exact hp.noSuccess d' q hs
        · cases heq
  · exact ⟨hh.ne_nil, hlive, nofun, hh.noAccept, hh.noSuccess⟩
  · exact ⟨le_rfl, fun d p x hx ↦ absurd hx.sent (hh.noPropose d p),
      fun h0 ↦ absurd h0 (lt_irrefl _), .inl rfl⟩
  · rintro h' v ⟨asked, hsplit, hround', hp, hv⟩
    rw [List.append_nil] at hsplit
    subst hsplit
    exact ⟨hround', hp, hv⟩

/-- The accept request adopts what the proposals reported. -/
theorem adopts_acceptRequest {h : History} {v : Proposals} {asked : List String}
    (hv : v.Sum asked h) : Adopts r h (acceptRequest r (roundOf h) v) := by
  rw [acceptRequest]
  by_cases hpos : v.acceptedId > 0
  · rw [if_pos hpos]
    exact ⟨rfl, rfl, rfl, .inr (hv.reported hpos)⟩
  · rw [if_neg hpos]
    refine ⟨rfl, rfl, rfl, .inl ⟨rfl, rfl, fun d p x hx hok ↦ ?_⟩⟩
    have := hv.max d p x hx hok
    omega

/-- The history of an attempt from the accept stage on. -/
structure Accepting (members : List String) (r : Request) (h : History) (q : Request) :
    Prop where
  ne_nil : h ≠ []
  adopts : Adopts r h q
  allAsked : AllAsked members r h
  accepts : ∀ d q', Sent h d (.accept q') → q' = q

/-- The answers to the proposals do not change after the proposal stage. -/
theorem Accepting.append {h : History} {q : Request} (ha : Accepting members r h q)
    (d : String) (a : Act) (x : a.Ret)
    (hact : a = .accept q ∨ ∃ q', a = .success q') :
    Accepting members r (h ++ [⟨.act (some d) a, x⟩]) q := by
  have hsub : h ⊆ h ++ [⟨.act (some d) a, x⟩] := List.subset_append_left _ _
  have hpropose : ∀ p, Act.propose p ≠ a := by
    rintro p rfl
    rcases hact with h | ⟨_, h⟩ <;> cases h
  refine ⟨by simp, ⟨ha.adopts.key, ?_, ha.adopts.pserverId, ?_⟩, ?_, ?_⟩
  · rw [roundOf_append ha.ne_nil]
    exact ha.adopts.round
  · refine ha.adopts.value.imp (fun ⟨h1, h2, h3⟩ ↦ ⟨h1, h2, fun d' p x' hx' hok ↦ ?_⟩)
      fun h1 ↦ h1.mono hsub
    rcases heard_append_one.1 hx' with hx' | ⟨-, heq⟩
    · exact h3 d' p x' hx' hok
    · exact absurd (congrArg Sigma.fst heq) (hpropose p)
  · rw [AllAsked, roundOf_append ha.ne_nil]
    exact ⟨ha.allAsked.1.imp fun _ hs ↦ hs.mono hsub, ha.allAsked.2.mono hsub⟩
  · intro d' q' hs
    rcases sent_append_one.1 hs with hs | ⟨-, heq⟩
    · exact ha.accepts d' q' hs
    · rcases hact with h | ⟨_, h⟩
      · exact Act.accept.inj (heq.trans h)
      · cases heq.trans h

/-- What the variables of the accept stage say about the answers. -/
structure Accepted (members : List String) (asked : List String) (h : History) (q : Request)
    (v : ℕ × Response) : Prop where
  voters : ∃ Q : Finset String, Q ⊆ asked.toFinset ∧ Q.card = v.1 ∧
    ∀ d ∈ Q, ∃ x : Status × Response, Heard h d (.accept q) x ∧ x.1.Ok
  sent : ∀ d ∈ asked, Sent h d (.accept q)
  response : 0 < v.1 → v.2 = acceptResponse q
  count : v.1 = asked.length ∨ Failing h

theorem acceptStage_sat {h : History} {q : Request} {liveNodes : List String}
    (hlive : Live members h liveNodes) (hnodup : members.Nodup)
    (hh : Accepting members r h q) (hsuccess : ∀ d q', ¬ Sent h d (.success q')) :
    Sat rely (attemptEmits members r)
      (fun h' v ↦ Accepting members r h' q ∧ (∀ d q', ¬ Sent h' d (.success q')) ∧
        Live members h' liveNodes ∧ (Failing h → Failing h') ∧
        Accepted members liveNodes h' q v)
      (acceptStage q liveNodes) h := by
  replace hnodup := hnodup.sublist hlive.sublist
  refine (Sat.foldlM (fun rest v h' ↦ ∃ asked, liveNodes = asked ++ rest ∧
    Accepting members r h' q ∧ (∀ d q', ¬ Sent h' d (.success q')) ∧
    Live members h' liveNodes ∧ (Failing h → Failing h') ∧ Accepted members asked h' q v) ?_
    liveNodes (0, {}) h ⟨[], rfl, hh, hsuccess, hlive, id, ?_⟩).mono ?_
  · -- one more vote
    rintro d rest v h' ⟨asked, hsplit, ha, hs, hl, hfail, hacc⟩
    refine ⟨⟨hl.sublist.subset (by rw [hsplit]; simp), ha.adopts, ha.allAsked, ha.accepts, hs⟩,
      fun x hx ↦ ⟨asked ++ [d], by simp [hsplit], ha.append d _ x (.inl rfl), ?_,
        hl.mono (List.subset_append_left _ _), ?_, ?_⟩⟩
    · intro d' q' hs'
      rcases sent_append_one.1 hs' with hs' | ⟨-, heq⟩
      · exact hs d' q' hs'
      · cases heq
    · exact fun hf ↦ (hfail hf).mono (List.subset_append_left _ _)
    · have hsub : h' ⊆ h' ++ [⟨.act (some d) (Act.accept q), x⟩] := List.subset_append_left _ _
      obtain ⟨Q, hQ, hcard, hvotes⟩ := hacc.voters
      have hsent : ∀ d' ∈ asked ++ [d], Sent (h' ++ [⟨.act (some d) (Act.accept q), x⟩]) d'
          (.accept q) := by
        intro d' hd'
        rw [sent_append_one]
        rcases List.mem_append.1 hd' with hd' | hd'
        · exact .inl (hacc.sent d' hd')
        · exact .inr ⟨List.mem_singleton.1 hd', rfl⟩
      by_cases hok : Status.Ok x.1
      · rw [if_pos hok]
        have hd : d ∉ Q := by
          intro hd
          have h1 : d ∈ asked := List.mem_toFinset.1 (hQ hd)
          rw [hsplit] at hnodup
          exact (List.nodup_append.1 hnodup).2.2 d h1 d (by simp) rfl
        refine ⟨⟨insert d Q, ?_, by rw [Finset.card_insert_of_notMem hd, hcard], ?_⟩,
          hsent, fun _ ↦ hx hok, ?_⟩
        · intro d' hd'
          rw [List.mem_toFinset, List.mem_append]
          rcases Finset.mem_insert.1 hd' with rfl | hd'
          · simp
          · exact .inl (List.mem_toFinset.1 (hQ hd'))
        · intro d' hd'
          rcases Finset.mem_insert.1 hd' with rfl | hd'
          · exact ⟨x, heard_append_one.2 (.inr ⟨rfl, rfl⟩), hok⟩
          · obtain ⟨y, hy, hyok⟩ := hvotes d' hd'
            exact ⟨y, hy.mono hsub, hyok⟩
        · exact hacc.count.imp (fun hc ↦ by simp [hc]) fun hf ↦ hf.mono hsub
      · rw [if_neg hok]
        refine ⟨⟨Q, fun d' hd' ↦ ?_, hcard, fun d' hd' ↦ ?_⟩, hsent, hacc.response,
          .inr (.inr (.inr ⟨d, q, x, heard_append_one.2 (.inr ⟨rfl, rfl⟩), hok⟩))⟩
        · rw [List.mem_toFinset, List.mem_append]
          exact .inl (List.mem_toFinset.1 (hQ hd'))
        · obtain ⟨y, hy, hyok⟩ := hvotes d' hd'
          exact ⟨y, hy.mono hsub, hyok⟩
  · exact ⟨⟨∅, by simp, rfl, by simp⟩, nofun, fun h0 ↦ absurd h0 (lt_irrefl _), .inl rfl⟩
  · rintro h' v ⟨asked, hsplit, ha, hs, hl, hfail, hacc⟩
    rw [List.append_nil] at hsplit
    subst hsplit
    exact ⟨ha, hs, hl, hfail, hacc⟩

theorem successStage_sat {h : History} {q : Request} (hh : Accepting members r h q)
    (hcarried : Carried members r h q) :
    Sat rely (attemptEmits members r)
      (fun h' _ ↦ Accepting members r h' q ∧ Carried members r h' q ∧
        ∀ d ∈ members, Sent h' d (.success (successRequest r.key (acceptResponse q))))
      (successStage (successRequest r.key (acceptResponse q)) members) h := by
  refine (Sat.foldlM (fun rest _ h' ↦ ∃ done, members = done ++ rest ∧
    Accepting members r h' q ∧ Carried members r h' q ∧
    ∀ d ∈ done, Sent h' d (.success (successRequest r.key (acceptResponse q)))) ?_
    members () h ⟨[], rfl, hh, hcarried, nofun⟩).mono ?_
  · rintro d rest _ h' ⟨done, hsplit, ha, hc, hsent⟩
    refine ⟨⟨by rw [hsplit]; simp, ha.allAsked, q, hc, rfl⟩, fun x _ ↦ ⟨done ++ [d],
      by simp [hsplit], ?_, ?_, fun d' hd' ↦ ?_⟩⟩
    · exact ha.append d _ x (.inr ⟨_, rfl⟩)
    · obtain ⟨-, hvoted, Q, hQ, hvotes⟩ := hc
      refine ⟨(ha.append d _ x (.inr ⟨_, rfl⟩)).adopts,
        hvoted.mono (List.subset_append_left _ _), Q, hQ, fun d' hd' ↦ ?_⟩
      obtain ⟨y, hy, hyok⟩ := hvotes d' hd'
      exact ⟨y, hy.mono (List.subset_append_left _ _), hyok⟩
    · rw [sent_append_one]
      rcases List.mem_append.1 hd' with hd' | hd'
      · exact .inl (hsent d' hd')
      · exact .inr ⟨List.mem_singleton.1 hd', rfl⟩
  · rintro h' _ ⟨done, hsplit, ha, hc, hsent⟩
    rw [List.append_nil] at hsplit
    subst hsplit
    exact ⟨ha, hc, hsent⟩

/-- **`AttemptConsensus` keeps its contract.** -/
theorem attemptConsensus_sat (hnodup : members.Nodup) (hne : members ≠ []) (r : Request) :
    Sat rely (attemptEmits members r) (attemptReturns members r)
      (attemptConsensus members r) [] := by
  rw [attemptConsensus, Prog.here_bind]
  refine ⟨⟨rfl, rfl⟩, fun log _ ↦ ?_⟩
  -- the history that starts with the choice of the round
  set h₀ : History := [] ++ [⟨.act none (Act.getLog r.key), log⟩] with hh₀
  have hsent₀ : ∀ d a, ¬ Sent h₀ d a := by
    rintro d a ⟨x, hx⟩
    have := List.mem_singleton.1 hx
    cases this
  have hpinged₀ : Pinged (Log.size log) h₀ :=
    ⟨by simp [hh₀], rfl, fun d q ↦ hsent₀ d _, fun d q ↦ hsent₀ d _, fun d q ↦ hsent₀ d _⟩
  refine Sat.bind ((pingStage_sat hpinged₀).mono ?_)
  rintro h₁ liveNodes ⟨hpinged, hlive⟩
  by_cases hq₁ : NoQuorum members.length liveNodes.length
  · -- not enough answers to the pings
    rw [if_pos hq₁]
    refine ⟨fun ⟨d, q, hs⟩ ↦ absurd hs (hpinged.noPropose d q), .inr ⟨rfl, hpinged.noSuccess, ?_⟩⟩
    refine hlive.all.resolve_left fun heq ↦ ?_
    rw [heq] at hq₁
    exact not_noQuorum_self _ hq₁
  rw [if_neg hq₁]
  refine Sat.bind ((proposeStage_sat hpinged hlive).mono ?_)
  rintro h₂ v ⟨hround, hprop, hv⟩
  have hsome : ∃ d, d ∈ liveNodes := by
    have := not_noQuorum_iff.1 hq₁
    have := List.length_pos_of_ne_nil hne
    exact List.exists_mem_of_length_pos (by omega)
  have hasked : AllAsked members r h₂ :=
    ⟨hsome.imp hprop.sent, hprop.live.allSent hprop.sent⟩
  -- everyone is counted unless a call failed
  have hfail₂ : ∀ c : ℕ, NoQuorum members.length c → c = liveNodes.length ∨ Failing h₂ →
      Failing h₂ := by
    intro c hc hcount
    rcases hcount with hcount | hf
    · refine hprop.live.all.resolve_left fun heq ↦ ?_
      rw [hcount, heq] at hc
      exact not_noQuorum_self _ hc
    · exact hf
  by_cases hq₂ : NoQuorum members.length v.numAcceptedProposals
  · -- not enough answers to the proposals
    rw [if_pos hq₂]
    exact ⟨fun _ ↦ hasked, .inr ⟨rfl, hprop.noSuccess, hfail₂ _ hq₂ hv.count⟩⟩
  rw [if_neg hq₂]
  have hacc₀ : Accepting members r h₂ (acceptRequest r (Log.size log) v) :=
    ⟨hprop.ne_nil, hround ▸ adopts_acceptRequest hv, hasked,
      fun d q' hs ↦ absurd hs (hprop.noAccept d q')⟩
  refine Sat.bind ((acceptStage_sat hprop.live hnodup hacc₀ hprop.noSuccess).mono ?_)
  rintro h₃ a ⟨hacc, hsucc, hlive₃, hmono, hvotes⟩
  by_cases hq₃ : NoQuorum members.length a.1
  · -- not enough acceptances
    rw [if_pos hq₃]
    refine ⟨fun _ ↦ hacc.allAsked, .inr ⟨rfl, hsucc, ?_⟩⟩
    rcases hvotes.count with hcount | hf
    · exact hmono (hfail₂ _ hq₃ (.inl hcount))
    · exact hf
  rw [if_neg hq₃]
  obtain ⟨Q, hQ, hcard, hQvotes⟩ := hvotes.voters
  have hquorum : IsQuorum members Q := by
    refine ⟨fun d hd ↦ ?_, by rw [hcard]; exact not_noQuorum_iff.1 hq₃⟩
    exact List.mem_toFinset.2 (hlive.sublist.subset (List.mem_toFinset.1 (hQ hd)))
  have hcarried : Carried members r h₃ (acceptRequest r (Log.size log) v) :=
    ⟨hacc.adopts, hlive₃.allSent hvotes.sent, Q, hquorum, hQvotes⟩
  have hpos : 0 < a.1 := hcard ▸ Finset.card_pos.2 (hquorum.nonempty hne)
  rw [hvotes.response hpos]
  refine Sat.bind ((successStage_sat hacc hcarried).mono ?_)
  rintro h₄ - ⟨hacc₄, hcarried₄, hsent⟩
  exact ⟨fun _ ↦ hacc₄.allAsked, .inl ⟨Status.ok_default, _, hcarried₄, rfl, hsent⟩⟩

end Attempt

/-! ### The other procedures -/

/-- The call of `AttemptConsensus` for `r`, and what it returned. -/
abbrev attempted (r : Request) (rep : Reply) : Event Db :=
  ⟨.invoke none (.attemptConsensus r), rep⟩

/-- A read of the leader register. -/
abbrev readLeaderIs (addr : String) : Event Db := ⟨.act none Act.readLeader, addr⟩

/-- The request of an election. -/
abbrev electRequest (key value : String) : Request :=
  { key := key, value := value, op := .setLeader }

/-- The request of a client set. -/
abbrev setRequest (key value : String) : Request := { key := key, value := value }

/-- The calls of `elect_leader`. -/
def electEmits (key value : String) (h : History) : Call Db → Prop
  | .invoke none (.attemptConsensus r) => r = electRequest key value ∧ h = []
  | .act none (.writeLeader v) => ∃ rep : Reply, h = [attempted (electRequest key value) rep] ∧
      rep.status.Ok ∧ v = rep.response.value
  | _ => False

/-- The result of `elect_leader`: that of its attempt, whose value it has made the leader. -/
def electReturns (key value : String) (h : History) (rep : Reply) : Prop :=
  ∃ rep' : Reply, rep = { status := rep'.status } ∧
    (rep'.status.Ok ∧ h = [attempted (electRequest key value) rep',
        ⟨.act none (Act.writeLeader rep'.response.value), ()⟩] ∨
      ¬ rep'.status.Ok ∧ h = [attempted (electRequest key value) rep'])

theorem electLeader_sat (key value : String) :
    Sat rely (electEmits key value) (electReturns key value) (electLeader key value) [] := by
  rw [electLeader, Prog.run_bind]
  refine ⟨⟨rfl, rfl⟩, fun rep _ ↦ Sat.ite (fun hok ↦ ?_) fun hok ↦ ?_⟩
  · exact ⟨⟨rep, rfl, hok, rfl⟩, fun _ _ ↦ ⟨rep, rfl, .inl ⟨hok, rfl⟩⟩⟩
  · exact ⟨rep, rfl, .inr ⟨hok, rfl⟩⟩

/-- The requests that are forwarded to the leader. -/
def Task.Forwarded : Task → Prop
  | .set _ _ | .get _ => True
  | _ => False

/-- A handler that has found another node in the leader register. -/
def NotLeader (me : String) (h : History) : Prop :=
  ∃ addr h', h = readLeaderIs addr :: h' ∧ addr ≠ me

theorem NotLeader.append {me : String} {h : History} (hn : NotLeader me h) (h' : History) :
    NotLeader me (h ++ h') := by
  obtain ⟨addr, h₁, rfl, hne⟩ := hn
  exact ⟨addr, h₁ ++ h', rfl, hne⟩

/-- The calls of the forwarding branch of `set` and `get`: to the node in the register, or the
election of the own node. -/
def forwardEmits (members : List String) (me : String) (task : Task) (h : History) :
    Call Db → Prop
  | .act none .readLeader => h = [] ∨ NotLeader me h
  | .invoke (some d) t => NotLeader me h ∧
      ((t = task ∧ d ∈ members ∧ readLeaderIs d ∈ h) ∨ (t = .electLeader "leader" me ∧ d = me))
  | _ => False

/-- The calls of `set`. -/
def setEmits (members : List String) (me key value : String) (h : History) : Call Db → Prop
  | .invoke none (.attemptConsensus r) => r = setRequest key value ∧ h = [readLeaderIs me]
  | c => forwardEmits members me (.set key value) h c

/-- The calls of `get`. -/
def getEmits (members : List String) (me key : String) (h : History) : Call Db → Prop
  | .act none (.getKV k) => k = key ∧ h = [readLeaderIs me]
  | c => forwardEmits members me (.get key) h c

/-- A forwarded request came back OK, with this message. -/
def ForwardedOk (task : Task) (h : History) (m : GetResponse) : Prop :=
  ∃ d, ∃ rep : Reply, (⟨.invoke (some d) task, rep⟩ : Event Db) ∈ h ∧ rep.status.Ok ∧
    rep.getResponse = m

/-- The result of `set`: that of the attempt at the leader, or of a forwarded request. -/
def setReturns (me key value : String) (h : History) (rep : Reply) : Prop :=
  (∃ rep' : Reply, h = [readLeaderIs me, attempted (setRequest key value) rep'] ∧
    rep = { status := rep'.status }) ∨
  (h = [readLeaderIs ""] ∧ rep = { status := .aborted "No leader set" }) ∨
  (NotLeader me h ∧ (rep.status.Ok → ∃ m, ForwardedOk (.set key value) h m))

/-- What the leader answers to a `get`. -/
def getAnswer (x : String × ℤ) : GetResponse :=
  if x.2 ≠ 0 then { value := "", error := 1 } else { value := x.1 }

/-- The result of `get`: what the store of the leader holds, or the answer of a forwarded
request. -/
def getReturns (me key : String) (h : History) (rep : Reply) : Prop :=
  (∃ x : String × ℤ, h = [readLeaderIs me, ⟨.act none (Act.getKV key), x⟩] ∧
    rep = { getResponse := getAnswer x }) ∨
  (h = [readLeaderIs ""] ∧ rep = { status := .aborted "No leader set" }) ∨
  (NotLeader me h ∧ (rep.status.Ok → ForwardedOk (.get key) h rep.getResponse))

/-- `memberList->at` answers with a status that is not OK when it throws. -/
theorem memberAt_sat {emits : History → Call Db → Prop} {returns : History → Reply → Prop}
    {members : List String} {node : String} {k : Program Reply} {h : History}
    (hmem : node ∈ members → Sat rely emits returns k h)
    (hthrow : returns h { status := .unknown }) :
    Sat rely emits returns (memberAt members node k) h :=
  Sat.ite hmem fun _ ↦ hthrow

/-- The forwarding branch. Its calls are those of `forwardEmits`, and if its answer is OK it is
made from a reply of the leader. -/
theorem forward_sat {emits : History → Call Db → Prop} {returns : History → Reply → Prop}
    {members : List String} {me : String} (task : Task) {answer : Reply → Reply} {h : History}
    (hemits : ∀ h' c, NotLeader me h' → forwardEmits members me task h' c → emits h' c)
    (hfail : ∀ h' rep, NotLeader me h' → ¬ rep.status.Ok → returns h' rep)
    (hok : ∀ h' d (rep : Reply), NotLeader me h' →
      (⟨.invoke (some d) task, rep⟩ : Event Db) ∈ h' → rep.status.Ok → returns h' (answer rep))
    (hnot : NotLeader me h) :
    Sat rely emits returns (forward members me task answer) h := by
  -- the request at the leader named in the register, and what the caller makes of its reply
  have hleader : ∀ (h' : History) (k : Reply → Program Reply), NotLeader me h' →
      (∀ h'' d (rep : Reply), NotLeader me h'' →
        (⟨.invoke (some d) task, rep⟩ : Event Db) ∈ h'' →
          Sat rely emits returns (k rep) h'') →
      Sat rely emits returns (do
        let leader ← Local.readLeader
        memberAt members leader do
          let rep ← Prog.invoke (S := Db) leader task
          k rep) h' := by
    intro h' k hnot' hk
    refine ⟨hemits _ _ hnot' (.inr hnot'), fun leader _ ↦ memberAt_sat (fun hmem ↦ ?_)
      (hfail _ _ (hnot'.append _) Status.not_ok_unknown)⟩
    have hnot'' := hnot'.append [readLeaderIs leader]
    refine ⟨hemits _ _ hnot'' ⟨hnot'', .inl ⟨rfl, hmem, by simp⟩⟩, fun rep _ ↦ ?_⟩
    exact hk _ leader rep (hnot''.append _) (by simp)
  refine hleader h _ hnot fun h₁ d rep hnot₁ hrep ↦ Sat.ite (hok h₁ d rep hnot₁ hrep) fun _ ↦ ?_
  refine ⟨hemits _ _ hnot₁ ⟨hnot₁, .inr ⟨rfl, rfl⟩⟩, fun election _ ↦
    Sat.ite (fun _ ↦ ?_) fun _ ↦ ?_⟩
  · exact hfail _ _ (hnot₁.append _) (Status.not_ok_aborted _)
  refine hleader _ _ (hnot₁.append _) fun h₂ d' rep' hnot₂ hrep' ↦
    Sat.ite (fun _ ↦ ?_) fun hok' ↦ ?_
  · exact hfail _ _ hnot₂ (Status.not_ok_aborted _)
  · exact hok h₂ d' rep' hnot₂ hrep' (not_not.1 hok')

theorem set_sat (members : List String) (me key value : String) :
    Sat rely (setEmits members me key value) (setReturns me key value)
      (set members me key value) [] := by
  rw [set, Prog.here_bind]
  refine ⟨.inl rfl, fun addr _ ↦ Sat.ite ?_ fun _ ↦ Sat.ite ?_ fun hme ↦ ?_⟩
  · rintro rfl
    exact .inr (.inl ⟨rfl, rfl⟩)
  · rintro rfl
    exact ⟨⟨rfl, rfl⟩, fun rep _ ↦ .inl ⟨rep, rfl, rfl⟩⟩
  · refine forward_sat (.set key value) (fun h' c _ hc ↦ ?_)
      (fun h' rep hnot hfail ↦ .inr (.inr ⟨hnot, fun hok ↦ absurd hok hfail⟩))
      (fun h' d rep hnot hrep hok ↦ .inr (.inr ⟨hnot, fun _ ↦ ⟨_, d, rep, hrep, hok, rfl⟩⟩))
      ⟨addr, [], rfl, hme⟩
    rcases c with ⟨_ | d, a⟩ | ⟨_ | d, t⟩
    · exact hc
    · exact hc
    · exact absurd hc id
    · exact hc

theorem get_sat (members : List String) (me key : String) :
    Sat rely (getEmits members me key) (getReturns me key) (get members me key) [] := by
  rw [get, Prog.here_bind]
  refine ⟨.inl rfl, fun addr _ ↦ Sat.ite ?_ fun _ ↦ Sat.ite ?_ fun hme ↦ ?_⟩
  · rintro rfl
    exact .inr (.inl ⟨rfl, rfl⟩)
  · rintro rfl
    refine ⟨⟨rfl, rfl⟩, fun x _ ↦ Sat.ite (fun herr ↦ ?_) fun herr ↦ ?_⟩
    · exact .inl ⟨x, rfl, by rw [getAnswer, if_pos herr]⟩
    · exact .inl ⟨x, rfl, by rw [getAnswer, if_neg herr]⟩
  · refine forward_sat (.get key) (fun h' c _ hc ↦ ?_)
      (fun h' rep hnot hfail ↦ .inr (.inr ⟨hnot, fun hok ↦ absurd hok hfail⟩))
      (fun h' d rep hnot hrep hok ↦ .inr (.inr ⟨hnot, fun _ ↦ ⟨d, rep, hrep, hok, rfl⟩⟩))
      ⟨addr, [], rfl, hme⟩
    rcases c with ⟨_ | d, a⟩ | ⟨_ | d, t⟩
    · cases a <;> first | exact hc | exact absurd hc id
    · exact hc
    · exact hc
    · exact hc

/-- The calls of `coordinate`. -/
def coordinateEmits (members : List String) (flags : Flags) (me : String) (h : History) :
    Call Db → Prop
  | .act (some d) .getLeader => d ∈ members
  | .act (some d) .getDB => d ∈ members ∧ readLeaderIs d ∈ h
  | .act none .readLeader => True
  | .act none (.writeLeader v) => (flags.leader ∧ v = me) ∨
      ∃ d, ∃ x : Status × String, Heard h d .getLeader x ∧ x.1.Ok ∧ x.2 = v ∧ v ≠ ""
  | .act none (.setKV k v) => ∃ d, ∃ kv : KVStore, Heard h d .getDB kv ∧ kv.lookup k = some v
  | .invoke (some d) t => d = me ∧ t = .electLeader "leader" me
  | _ => False

section Coordinate

variable {members : List String} {flags : Flags} {me : String}

/-- Every pair that is copied comes from the answer to `get_db`. -/
theorem copy_sat {h : History} {leader : String} {kv : KVStore}
    (hkv : Heard h leader .getDB kv) :
    Sat rely (coordinateEmits members flags me) (fun _ _ ↦ True)
      (do
        kv.entries.foldlM (fun _ e ↦ Local.setKV e.1 e.2) ()
        pure {} : Program Reply) h := by
  refine Sat.bind ((Sat.foldlM (fun rest _ h' ↦ rest ⊆ kv.entries ∧
    Heard h' leader .getDB kv) ?_ kv.entries () h ⟨fun _ he ↦ he, hkv⟩).mono fun _ _ _ ↦ trivial)
  rintro ⟨k, v⟩ rest _ h' ⟨hsub, hdb⟩
  refine ⟨⟨leader, kv, hdb, KVStore.mem_entries.1 (hsub (by simp))⟩, fun _ _ ↦ ?_⟩
  exact ⟨fun e he ↦ hsub (List.mem_cons_of_mem _ he), hdb.mono (List.subset_append_left _ _)⟩

theorem recover_sat (h : History) :
    Sat rely (coordinateEmits members flags me) (fun _ _ ↦ True) (recover members me) h := by
  rw [recover]
  refine ⟨trivial, fun _ _ ↦ Sat.ite (fun _ ↦ trivial) fun _ ↦ ⟨trivial, fun _ _ ↦
    Sat.ite (fun _ ↦ trivial) fun _ ↦ ⟨trivial, fun leader _ ↦
      memberAt_sat (fun hmem ↦ ⟨⟨hmem, by simp⟩, fun kv _ ↦ ?_⟩) trivial⟩⟩⟩
  exact copy_sat (heard_append_one.2 (.inr ⟨rfl, rfl⟩))

theorem orElect_sat (election : Bool) (h : History) :
    Sat rely (coordinateEmits members flags me) (fun _ _ ↦ True)
      (coordinate.orElect members me election) h := by
  refine Sat.ite (fun _ ↦ ?_) fun _ ↦ recover_sat h
  exact ⟨⟨rfl, rfl⟩, fun _ _ ↦ Sat.ite (fun _ ↦ trivial) fun _ ↦ recover_sat _⟩

/-- The leaders collected were named by some node. -/
theorem askLeaders_sat (h : History) :
    Sat rely (coordinateEmits members flags me)
      (fun h' v ↦ ∀ leader ∈ v.1, leader ≠ "" ∧
        ∃ d, ∃ x : Status × String, Heard h' d .getLeader x ∧ x.1.Ok ∧ x.2 = leader)
      (askLeaders members) h := by
  refine (Sat.foldlM (fun rest v h' ↦ rest ⊆ members ∧ ∀ leader ∈ v.1, leader ≠ "" ∧
      ∃ d, ∃ x : Status × String, Heard h' d .getLeader x ∧ x.1.Ok ∧ x.2 = leader)
    ?_ members ([], []) h ⟨fun _ hd ↦ hd, fun _ hmem ↦ absurd hmem List.not_mem_nil⟩).mono
      fun h' v hv ↦ hv.2
  rintro d rest v h' ⟨hsub, hv⟩
  refine ⟨hsub (by simp), fun x _ ↦ ⟨fun e he ↦ hsub (List.mem_cons_of_mem _ he),
    fun leader hmem ↦ ?_⟩⟩
  have hold : ∀ leader ∈ v.1, leader ≠ "" ∧ ∃ d', ∃ x' : Status × String,
      Heard (h' ++ [⟨.act (some d) Act.getLeader, x⟩]) d' .getLeader x' ∧ x'.1.Ok ∧
        x'.2 = leader := by
    intro leader hmem
    obtain ⟨hne, d', x', hx', hok, rfl⟩ := hv leader hmem
    exact ⟨hne, d', x', hx'.mono (List.subset_append_left _ _), hok, rfl⟩
  split at hmem
  · rename_i hok
    split at hmem
    · exact hold leader hmem
    · rename_i hne
      rcases List.mem_insert_iff.1 hmem with rfl | hmem
      · exact ⟨hne, d, x, heard_append_one.2 (.inr ⟨rfl, rfl⟩), hok, rfl⟩
      · exact hold leader hmem
  · exact hold leader hmem

theorem coordinate_sat :
    Sat rely (coordinateEmits members flags me) (fun _ _ ↦ True)
      (coordinate members flags me) [] := by
  refine Sat.ite (fun hflag ↦ ?_) fun _ ↦ ?_
  · exact ⟨.inl ⟨hflag, rfl⟩, fun _ _ ↦ recover_sat _⟩
  refine Sat.bind ((askLeaders_sat []).mono ?_)
  rintro h ⟨leaders, liveReplicas⟩ hleaders
  match leaders, hleaders with
  | [leader], hleaders =>
    refine Sat.ite (fun _ ↦ ?_) fun _ ↦ orElect_sat _ _
    obtain ⟨hne, d, x, hx, hok, hval⟩ := hleaders leader (by simp)
    exact ⟨.inr ⟨d, x, hx, hok, hval, hne⟩, fun _ _ ↦ recover_sat _⟩
  | [], _ => exact orElect_sat _ _
  | _ :: _ :: _, _ => exact orElect_sat _ _

end Coordinate

/-! ### The contract of the service -/

/-- The calls of each procedure. -/
def emits (cl : Cluster) (me : String) : Task → History → Call Db → Prop
  | .attemptConsensus r => attemptEmits cl.memberList r
  | .electLeader key value => electEmits key value
  | .set key value => setEmits cl.memberList me key value
  | .get key => getEmits cl.memberList me key
  | .coordinate => coordinateEmits cl.memberList (cl.flags me) me

/-- The result of each procedure. -/
def returns (cl : Cluster) (me : String) : Task → History → Reply → Prop
  | .attemptConsensus r => attemptReturns cl.memberList r
  | .electLeader key value => electReturns key value
  | .set key value => setReturns me key value
  | .get key => getReturns me key
  | .coordinate => fun _ _ ↦ True

/-- **The procedures of the service keep their contracts.** -/
def contract (cl : Cluster) : Rpc.Contract (db cl) where
  rely := rely
  emits := emits cl
  returns := returns cl
  rely_act dest a s := by
    cases a with
    | accept q => exact fun _ ↦ by simp [act, accept_answer]
    | _ => trivial
  rely_lost dest a := by
    cases a with
    | accept q => exact fun hok ↦ absurd hok Status.not_ok_unavailable
    | _ => trivial
  rely_invoke dest t r := trivial
  body_sat me t := by
    cases t with
    | attemptConsensus r => exact attemptConsensus_sat cl.nodup cl.ne_nil r
    | electLeader key value => exact electLeader_sat key value
    | set key value => exact set_sat cl.memberList me key value
    | get key => exact get_sat cl.memberList me key
    | coordinate => exact coordinate_sat

end ReplicatedDB
