import FederatedAccess.Proofs.Broker.Provenance
import FederatedAccess.Proofs.SharedOutcome

/-!
# What tokens calls return

A call returns a token for its own scope set, or for one with the same key. The token comes from
the store, where it was usable at the moment of the lookup, or it was granted after the call began:
to the call itself, or to the call whose outcome it shares.
-/

namespace FederatedAccess

/-- Among the scope sets that calls asked for, different ones have different keys. -/
def KeysApart (j : List Entry) : Prop :=
  ∀ scope₁ scope₂, Begun j scope₁ → Begun j scope₂ → scope₁.key = scope₂.key → scope₁ = scope₂

/-- In a journal, a token was granted after a call began: by a reply to the call, or by a reply to
another call, whose published outcome the call shared. -/
inductive GrantedSince (id : CallId) (t : AccessToken) : List Entry → Prop
  | own {p s q a u scope deadline reply}
      (started : s.call = id ∧ s.what = .started scope deadline)
      (answered : a.call = id ∧ a.what = .answered reply) (granted : reply.Grants t) :
      GrantedSince id t (p ++ s :: q ++ a :: u)
  | leader {p s q a w y u j v scope deadline reply slot}
      (started : s.call = id ∧ s.what = .started scope deadline)
      (answered : a.call = y.call ∧ a.what = .answered reply) (granted : reply.Grants t)
      (published : y.call ≠ id ∧ y.what = .published slot (.ok t))
      (joined : j.call = id ∧ j.what = .joined (.ok t)) :
      GrantedSince id t (p ++ s :: q ++ a :: w ++ y :: u ++ j :: v)

/-- A token that is usable expires later than the margin allows. -/
theorem AccessToken.lt_of_isUsable {t : AccessToken} {now : Instant} {margin : Duration}
    (h : t.isUsable now margin = true) : now.nanos < t.expiresAt.nanos - margin.nanos := by
  have before := (isUsable_iff.mp h).1
  omega

/-- The token with which a call ends. -/
def Occurrence.returned? : Occurrence → Option AccessToken
  | .ended (.ok t) => some t
  | _ => none

/-- Whether a call takes a token from the store. -/
def Occurrence.isHit : Occurrence → Bool
  | .hit _ => true
  | _ => false

theorem Occurrence.eq_of_returned? {o : Occurrence} {t : AccessToken} (h : o.returned? = some t) :
    o = .ended (.ok t) := by
  unfold Occurrence.returned? at h
  split at h
  · rw [Option.some.inj h]
  · cases h

namespace Broker

variable {b : Broker} {pre post : List Entry} {m : Duration}

/-- A token that a call publishes was granted to it after it began. -/
theorem grantedSince_of_published {id : CallId} {slot : SlotId} {t : AccessToken}
    (h : b.Provenance m) (hj : b.journal = pre ++ post)
    (ht : .published slot (.ok t) ∈ historyOf pre id) : GrantedSince id t pre := by
  obtain ⟨y, hy, rfl, hw⟩ := mem_historyOf.mp ht
  obtain ⟨before, after, rfl⟩ := List.append_of_mem hy
  have hlast := h.granted before y (after ++ post) (by simp [hj]) slot t hw
  cases hlast with
  | @intro p a w reply scope deadline started own answered granted =>
      obtain ⟨s, hs, hcall, hsw⟩ := mem_historyOf.mp started
      obtain ⟨q, r, rfl⟩ := List.append_of_mem hs
      rw [List.append_assoc, List.cons_append]
      exact .own ⟨hcall, hsw⟩ ⟨own a List.mem_cons_self, answered⟩ granted

/-- A token that a call shares was granted to the call that published it, after the first call
began. -/
theorem grantedSince_of_joined {id : CallId} {t : AccessToken} (hb : b.Coherent)
    (h : b.Provenance m) (hj : b.journal = pre ++ post)
    (ht : .joined (.ok t) ∈ historyOf pre id) : GrantedSince id t pre := by
  obtain ⟨j, hmem, rfl, hw⟩ := mem_historyOf.mp ht
  obtain ⟨before, v, rfl⟩ := List.append_of_mem hmem
  have hsince := hb.landing.joined before j (v ++ post) (by simp [hj]) _ hw
  cases hsince with
  | @intro p s m' z q y u scope deadline slot n started queued published boarded =>
      have hlast := h.granted (p ++ s :: m' ++ z :: q) y (u ++ j :: v ++ post) (by simp [hj]) slot t
        published.2
      generalize hsplit : p ++ s :: m' ++ z :: q = l at hlast
      cases hlast with
      | @intro p' a w reply _ _ _ own answered granted =>
          have hz : z ∉ a :: w := fun hz => published.1 ((own z hz).symm.trans queued.1)
          obtain ⟨mid, rfl⟩ : ∃ mid, p' = p ++ s :: mid := by
            have hassoc : (p ++ [s]) ++ (m' ++ z :: q) = p' ++ a :: w := by simp [← hsplit]
            rcases List.append_eq_append_iff.mp hassoc with ⟨mid, rfl, -⟩ | ⟨mid, -, htail⟩
            · exact ⟨mid, by simp⟩
            · exact absurd (by simp [htail]) hz
          exact .leader started ⟨own a List.mem_cons_self, answered⟩ granted published ⟨rfl, hw⟩

/-- A call with a token has taken it from the store, or has not and shared or published it. -/
theorem Departed.of_ok {h : List Occurrence} {t : AccessToken} (hd : Departed h (.ok t)) :
    .hit t ∈ h ∨ (∀ u, .hit u ∉ h) ∧
      (.joined (.ok t) ∈ h ∨ ∃ slot, .published slot (.ok t) ∈ h) := by
  generalize hr : (.ok t : Except Failure AccessToken) = r at hd
  cases hd with
  | refused => cases hr
  | served =>
      cases hr
      exact .inl (by simp)
  | @ended c h log _ living farewell =>
      have hliving (u : AccessToken) : .hit u ∉ h := by
        cases living with
        | queued => simp [opening]
        | aboard _ work => simp [opening, work.not_mem (o := .hit u) rfl]
      cases farewell with
      | joined => exact .inr ⟨by simp [hliving], .inl (by simp)⟩
      | hit =>
          cases hr
          exact .inl (by simp)
      | lapsed => cases hr
      | refreshed _ work =>
          subst hr
          refine .inr ⟨fun u => ?_, .inr ⟨c.slot, by simp [timedOut]⟩⟩
          simp [hliving, work.not_mem (o := .hit u) rfl]

/-- A token that a call returns is sound, and for the key that the call asks for. -/
theorem Provenance.key_eq {t : AccessToken} {e : Entry} {scope : ScopeSet} {deadline : Option Nat}
    (hb : b.Coherent) (h : b.Provenance m) (hj : b.journal = pre ++ e :: post)
    (he : e.what = .ended (.ok t))
    (hhead : (historyOf pre e.call).head? = some (.started scope deadline)) :
    Known pre t ∧ t.scope.key = scope.key := by
  have hd := hb.ledger.departed pre e post hj _ he
  obtain ⟨o, ho, hhanded⟩ : ∃ o ∈ historyOf pre e.call, o.handed? = some t := by
    rcases hd.of_ok with hhit | ⟨-, hjoined | ⟨slot, hpublished⟩⟩
    · exact ⟨_, hhit, rfl⟩
    · exact ⟨_, hjoined, rfl⟩
    · exact ⟨_, hpublished, rfl⟩
  obtain ⟨y, hy, hcall, rfl⟩ := mem_historyOf.mp ho
  obtain ⟨before, after, rfl⟩ := List.append_of_mem hy
  obtain ⟨hknown, scope', deadline', hmem, hkey⟩ :=
    h.suits before y (after ++ e :: post) (by simp [hj]) t hhanded
  have hwhole : .started scope' deadline' ∈ historyOf (before ++ y :: after) e.call := by
    rw [historyOf_append, ← hcall]
    exact List.mem_append_left _ hmem
  have hscope : scope' = scope := hd.scope_eq hhead hwhole
  exact ⟨hknown.append _, hscope ▸ hkey⟩

/-- A token that a call returns is for the scope set that the call asked for, has a lifetime and a
text, and was usable when the call took it from the store, or else was granted while the call
ran. -/
theorem returned_token_fresh (config : Config) (x : Exchanger) (clock : Instant)
    (events : List Event) (pre post : List Entry) (e : Entry) (t : AccessToken)
    (journal : ((make config x clock).run events).journal = pre ++ e :: post)
    (ended : e.what = .ended (.ok t)) :
    (∃ scope deadline, (historyOf pre e.call).head? = some (.started scope deadline) ∧
      (KeysApart pre → t.scope = scope)) ∧
    t.issuedAt < t.expiresAt ∧ t.secret.expose ≠ "" ∧
    ((∃ y ∈ pre, y.call = e.call ∧ y.what = .hit t ∧
        y.clock.nanos < t.expiresAt.nanos - config.margin.nanos) ∨
      (∀ u, .hit u ∉ historyOf pre e.call) ∧ GrantedSince e.call t pre) := by
  have hmake := Coherent.make config x clock
  have hb : Coherent ((make config x clock).run events) := hmake.run events
  have h : Provenance config.margin ((make config x clock).run events) :=
    (Provenance.make config x clock).run hmake events
  have hd := hb.ledger.departed pre e post journal _ ended
  obtain ⟨scope, deadline, hhead⟩ := hd.head?
  obtain ⟨hknown, hkey⟩ := h.key_eq hb journal ended hhead
  refine ⟨?_, hknown.sound.positive, hknown.sound.nonempty, ?_⟩
  · have hstarted : .started scope deadline ∈ historyOf pre e.call := List.mem_of_head? hhead
    exact ⟨scope, deadline, hhead, fun apart => apart _ _ hknown.begun (.of_history hstarted) hkey⟩
  · rcases hd.of_ok with hhit | ⟨hnone, hjoined | ⟨slot, hpublished⟩⟩
    · obtain ⟨y, hy, hcall, hw⟩ := mem_historyOf.mp hhit
      obtain ⟨before, after, rfl⟩ := List.append_of_mem hy
      have husable := h.usable before y (after ++ e :: post) (by simp [journal]) t hw
      exact .inl ⟨y, hy, hcall, hw, AccessToken.lt_of_isUsable husable⟩
    · exact .inr ⟨hnone, grantedSince_of_joined hb h journal hjoined⟩
    · exact .inr ⟨hnone, grantedSince_of_published h journal hpublished⟩

/-! ### A run in which a token is granted -/

def sampleReply : Reply where
  outcome := .ok ⟨200, none,
    Utf8.bytes "\x7b\"access_token\":\"t\",\"token_type\":\"Bearer\",\"expires_in\":3600\x7d"⟩
  metadata := none

/-- A refresh that succeeds while another call queues behind it. -/
def grantingRefresh : List Event :=
  [.start sampleScope none, .start sampleScope none, .proceed 0, .proceed 0,
    .readDone 0 (.ok "assertion"), .replied 0 sampleReply, .proceed 1]

theorem shared_token_granted :
    ∃ pre e t,
      ((make sampleConfig sampleExchanger sampleClock).run grantingRefresh).journal = pre ++ [e] ∧
      e.call = 1 ∧ e.what = .ended (.ok t) ∧ GrantedSince e.call t pre := by
  generalize hb : (make sampleConfig sampleExchanger sampleClock).run grantingRefresh = b
  have hlast : (b.journal.getLast?.any fun e => e.call == 1 && e.what.returned?.isSome) = true := by
    rw [← hb]
    decide +kernel
  have hmiss : (b.journal.all fun e => !e.what.isHit) = true := by
    rw [← hb]
    decide +kernel
  obtain ⟨e, he, hcall, hwhat⟩ : ∃ e, b.journal.getLast? = some e ∧ e.call = 1 ∧
      ∃ t, e.what = .ended (.ok t) := by
    cases he : b.journal.getLast? with
    | none => simp [he] at hlast
    | some e =>
        simp only [he, Option.any_some, Bool.and_eq_true, beq_iff_eq] at hlast
        refine ⟨e, rfl, hlast.1, ?_⟩
        obtain ⟨t, ht⟩ := Option.isSome_iff_exists.mp hlast.2
        exact ⟨t, Occurrence.eq_of_returned? ht⟩
  obtain ⟨t, ht⟩ := hwhat
  obtain ⟨pre, hpre⟩ := List.getLast?_eq_some_iff.mp he
  refine ⟨pre, e, t, hpre, hcall, ht, ?_⟩
  have hfresh := returned_token_fresh _ _ _ _ pre [] e t (hb ▸ hpre) ht
  rcases hfresh.2.2.2 with ⟨y, hy, -, hw, -⟩ | ⟨-, h⟩
  · have hno := List.all_eq_true.mp hmiss y (by simp [hpre, hy])
    rw [hw] at hno
    cases hno
  · exact h

end Broker

end FederatedAccess
