import Mathlib.Data.List.Induction
import Rmux.SessionGroups
import Rmux.WindowPanes

/-!
# Sessions of a group share their windows

In every store that requests lead to, the sessions of a group have the same windows, a group has
exactly one owner among its sessions, and sessions that are in no group together have no pane in
common (`GroupStore.Consistent`, `groups_share_windows`). This needs some care of the requests
(`GroupStore.Allows`) : a group keeps its name when the session it was named after is renamed, and
pane identities must come from the store.
-/

namespace Rmux

open MachineInt List Option OrderedMap Session

/-- Both are in the same group. -/
def SameGroup (a b : GroupedSession) : Prop :=
  ∃ groupName, a.groupName = some groupName ∧ b.groupName = some groupName

theorem SameGroup.symm {a b : GroupedSession} (h : SameGroup a b) : SameGroup b a := by
  obtain ⟨groupName, ha, hb⟩ := h
  exact ⟨groupName, hb, ha⟩

theorem OrderedMap.insert_erase {K V : Type*} [LinearOrder K] (m : OrderedMap K V) (k : K) (v : V) :
    (m.erase k).insert k v = m.insert k v := by
  refine ext_get? fun k' => ?_
  rw [get?_insert, get?_insert, get?_erase]
  split_ifs <;> rfl

namespace GroupStore

variable {sessions : OrderedMap SessionName GroupedSession}
  {owners : OrderedMap SessionName SessionName} {name : SessionName} {session : GroupedSession}

/-! ## What holds of the sessions -/

/-- Sessions under their names, with identities of their own. A group has the same windows in all of
its sessions, and sessions of no common group have no pane in common. -/
structure Members (sessions : OrderedMap SessionName GroupedSession) : Prop where
  named : ∀ {name session}, sessions.get? name = some session → session.sessionName = name
  ids : ∀ {name session name' session'}, sessions.get? name = some session →
    sessions.get? name' = some session' → session.id = session'.id → name = name'
  windows : ∀ {name session name' session'}, sessions.get? name = some session →
    sessions.get? name' = some session' → SameGroup session session' →
      session.windows = session'.windows
  panes : ∀ {name session name' session'}, sessions.get? name = some session →
    sessions.get? name' = some session' → name ≠ name' → ¬ SameGroup session session' →
      ∀ id ∈ session.paneIds, id ∉ session'.paneIds

/-- Every group has an owner, who is one of its sessions. -/
structure Owned (sessions : OrderedMap SessionName GroupedSession)
    (owners : OrderedMap SessionName SessionName) : Prop where
  owner : ∀ {name session groupName}, sessions.get? name = some session →
    session.groupName = some groupName → groupName ∈ owners
  owned : ∀ {groupName owner}, owners.get? groupName = some owner →
    ∃ session, sessions.get? owner = some session ∧ session.groupName = some groupName

/-- What is known of a store. -/
structure Consistent (store : GroupStore) : Prop where
  members : Members store.sessions
  owned : Owned store.sessions store.groupRuntimeOwners

def maxPaneId : PaneId := UInt32.ofNat u32Max

/-- The store has given away the identity. At the end of the counter all may be. -/
def HandedOut (next id : PaneId) : Prop := id < next ∨ next = maxPaneId

/-- The panes have identities from the store. -/
def Handed (sessions : OrderedMap SessionName GroupedSession) (next : PaneId) : Prop :=
  ∀ name session, sessions.get? name = some session → ∀ id ∈ session.paneIds, HandedOut next id

/-- A consistent store whose panes have identities from its counter. -/
structure Sound (store : GroupStore) : Prop extends Consistent store where
  handed : Handed store.sessions store.nextPaneId

theorem toNat_maxPaneId : maxPaneId.toNat = u32Max := rfl

theorem idAfter_cases (id : PaneId) :
    id = maxPaneId ∧ Session.idAfter id = maxPaneId ∨ id < Session.idAfter id := by
  rw [idAfter]
  split_ifs with h
  · exact .inl ⟨h, h⟩
  · refine .inr (UInt32.lt_iff_toNat_lt.mpr ?_)
    have hlt : id.toNat ≠ u32Max := fun heq => h (UInt32.toNat.inj heq)
    have hbd := id.toNat_lt
    rw [UInt32.toNat_add, show (1 : UInt32).toNat = 1 from rfl, Nat.mod_eq_of_lt (by
      rw [u32Max] at hlt; omega)]
    exact Nat.lt_succ_self _

theorem HandedOut.idAfter {next id : PaneId} (h : HandedOut next id) :
    HandedOut (Session.idAfter next) id := by
  rcases idAfter_cases next with ⟨-, hmax⟩ | hlt
  · exact .inr hmax
  · rcases h with hid | hmax
    · exact .inl (UInt32.lt_trans hid hlt)
    · -- nothing is above the greatest identity
      rw [hmax] at hlt
      have htoNat := UInt32.lt_iff_toNat_lt.mp hlt
      have hbd := (Session.idAfter maxPaneId).toNat_lt
      rw [toNat_maxPaneId, u32Max] at htoNat
      omega

theorem handedOut_self (next : PaneId) : HandedOut (Session.idAfter next) next := by
  rcases idAfter_cases next with ⟨-, hmax⟩ | hlt
  · exact .inr hmax
  · exact .inl hlt

/-! ## Sessions that come and go -/

theorem paneIds_eq {a b : Session} (h : a.windows = b.windows) : a.paneIds = b.paneIds := by
  rw [paneIds, h, paneIds]

theorem get?_erase_cases {name' : SessionName} {session' : GroupedSession}
    (h : (sessions.erase name).get? name' = some session') :
    name' ≠ name ∧ sessions.get? name' = some session' := by
  rw [get?_erase] at h
  split_ifs at h with heq
  exact ⟨heq, h⟩

theorem Members.erase (h : Members sessions) (name : SessionName) :
    Members (sessions.erase name) := by
  have hold : ∀ {name' session'}, (sessions.erase name).get? name' = some session' →
      sessions.get? name' = some session' := fun hget => (get?_erase_cases hget).2
  exact ⟨fun hget => h.named (hold hget), fun hget hget' => h.ids (hold hget) (hold hget'),
    fun hget hget' => h.windows (hold hget) (hold hget'),
    fun hget hget' => h.panes (hold hget) (hold hget')⟩

/-- A session that fits in. -/
structure Fits (sessions : OrderedMap SessionName GroupedSession) (name : SessionName)
    (session : GroupedSession) : Prop where
  named : session.sessionName = name
  id : ∀ {name' session'}, sessions.get? name' = some session' → session'.id ≠ session.id
  windows : ∀ {name' session'}, sessions.get? name' = some session' → SameGroup session session' →
    session.windows = session'.windows
  panes : ∀ {name' session'}, sessions.get? name' = some session' → ¬ SameGroup session session' →
    ∀ id ∈ session.paneIds, id ∉ session'.paneIds

theorem get?_insert_cases {name' : SessionName} {session' : GroupedSession}
    (h : (sessions.insert name session).get? name' = some session') :
    name' = name ∧ session' = session ∨ sessions.get? name' = some session' := by
  rw [get?_insert] at h
  split_ifs at h with heq
  · exact .inl ⟨heq, (some.inj h).symm⟩
  · exact .inr h

theorem Members.insert (h : Members sessions) (hft : Fits sessions name session) :
    Members (sessions.insert name session) := by
  refine ⟨fun hget => ?_, fun hget hget' hid => ?_, fun hget hget' hgrp => ?_,
    fun hget hget' hne hgrp id hid hid' => ?_⟩
  · rcases get?_insert_cases hget with ⟨rfl, rfl⟩ | hold
    · exact hft.named
    · exact h.named hold
  · rcases get?_insert_cases hget with ⟨rfl, rfl⟩ | hold <;>
      rcases get?_insert_cases hget' with ⟨rfl, rfl⟩ | hold'
    · rfl
    · exact absurd hid.symm (hft.id hold')
    · exact absurd hid (hft.id hold)
    · exact h.ids hold hold' hid
  · rcases get?_insert_cases hget with ⟨rfl, rfl⟩ | hold <;>
      rcases get?_insert_cases hget' with ⟨rfl, rfl⟩ | hold'
    · rfl
    · exact hft.windows hold' hgrp
    · exact (hft.windows hold hgrp.symm).symm
    · exact h.windows hold hold' hgrp
  · rcases get?_insert_cases hget with ⟨rfl, rfl⟩ | hold <;>
      rcases get?_insert_cases hget' with ⟨rfl, rfl⟩ | hold'
    · exact hne rfl
    · exact hft.panes hold' hgrp id hid hid'
    · exact hft.panes hold (fun hsm => hgrp hsm.symm) id hid' hid
    · exact h.panes hold hold' hne hgrp id hid hid'

theorem Owned.insert (h : Owned sessions owners) (hnew : name ∉ sessions)
    (hgrp : ∀ groupName, session.groupName = some groupName → groupName ∈ owners) :
    Owned (sessions.insert name session) owners := by
  refine ⟨fun {name' session' groupName} hget hnm => ?_, fun {groupName owner} ho => ?_⟩
  · rcases get?_insert_cases hget with ⟨rfl, rfl⟩ | hold
    · exact hgrp groupName hnm
    · exact h.owner hold hnm
  · obtain ⟨session', hget, hnm⟩ := h.owned ho
    refine ⟨session', ?_, hnm⟩
    rw [get?_insert, if_neg]
    · exact hget
    · rintro rfl
      exact hnew (mem_of_get? hget)

/-- A session that makes a new group. It may have been there without one. -/
theorem Owned.insertOwner (h : Owned sessions owners) {groupName : SessionName}
    (hgrp : session.groupName = some groupName)
    (hbef : ∀ before, sessions.get? name = some before → before.groupName = none) :
    Owned (sessions.insert name session) (owners.insert groupName name) := by
  refine ⟨fun {name' session' groupName'} hget hnm => ?_, fun {groupName' owner} ho => ?_⟩
  · rw [mem_insert]
    rcases get?_insert_cases hget with ⟨rfl, rfl⟩ | hold
    · exact .inl (some.inj (hnm.symm.trans hgrp))
    · exact .inr (h.owner hold hnm)
  · rw [get?_insert] at ho
    split_ifs at ho with heq
    · cases ho
      exact ⟨session, by rw [get?_insert, if_pos rfl], heq ▸ hgrp⟩
    · obtain ⟨session', hget, hnm⟩ := h.owned ho
      refine ⟨session', ?_, hnm⟩
      rw [get?_insert, if_neg]
      · exact hget
      · rintro rfl
        rw [hbef session' hget] at hnm
        cases hnm

theorem Handed.insert {next next' : PaneId} (h : Handed sessions next)
    (hnx : ∀ id, HandedOut next id → HandedOut next' id)
    (hps : ∀ id ∈ session.paneIds, HandedOut next' id) :
    Handed (sessions.insert name session) next' := by
  intro name' session' hget id hid
  rcases get?_insert_cases hget with ⟨rfl, rfl⟩ | hold
  · exact hps id hid
  · exact hnx id (h name' session' hold id hid)

/-! ## New sessions -/

section Lookups

variable {store : GroupStore}

def UnusedId (store : GroupStore) (id : ℕ) : Prop :=
  ∀ name session, store.sessions.get? name = some session → session.id ≠ id

theorem sessionById_eq_none {id : ℕ} : store.sessionById id = none ↔ store.UnusedId id := by
  rw [sessionById, map_eq_none_iff, find?_eq_none]
  constructor
  · intro h name session hget
    simpa using h (name, session) (get?_eq_some_iff.mp hget)
  · rintro h ⟨name, session⟩ hmem
    simpa using h name session (get?_eq_some_iff.mpr hmem)

theorem mem_sessionsInGroup (store : GroupStore) {groupName name : SessionName} :
    name ∈ store.sessionsInGroup groupName ↔
      ∃ session, store.sessions.get? name = some session ∧
        session.groupName = some groupName := by
  simp [sessionsInGroup, get?_eq_some_iff]

theorem refusal_eq_none {sessionId : ℕ} (h : store.refusal name sessionId = none) :
    name ∉ store.sessions ∧ store.UnusedId sessionId := by
  rw [refusal] at h
  split_ifs at h with hnm hid
  exact ⟨hnm, sessionById_eq_none.mp (by simpa using hid)⟩

/-- The counter of sessions does not matter. -/
theorem Sound.allocateSessionId (h : Sound store) {id : ℕ} {store' : GroupStore}
    (halloc : store.allocateSessionId = some (id, store')) :
    Sound store' ∧ ∃ counter, store' = { store with nextSessionId := counter } := by
  obtain ⟨id', -, heq⟩ := map_eq_some_iff.mp halloc
  cases heq
  exact ⟨⟨⟨h.members, h.owned⟩, h.handed⟩, _, rfl⟩

end Lookups

theorem sessionName_display (name : SessionName) :
    (⟨name.display.toList⟩ : SessionName) = name := by
  rw [SessionName.display, String.toList_ofList]

theorem paneIds_newWithInitialWindow (title : String) (size : TerminalSize) (i : ℕ)
    (p : PaneId) (windowId : WindowId) :
    (Session.newWithInitialWindow title size i p windowId).paneIds = [p] := by
  simp [Session.paneIds, Session.newWithInitialWindow, OrderedMap.singleton,
    Window.newWithInitialPane]

section Creation

variable {store store' : GroupStore} {size : TerminalSize} {baseIndex sessionId : ℕ}
  {groupName : Option SessionName}

theorem insertFirst_spec
    (h : store.insertFirst name size baseIndex sessionId groupName = some store') :
    ∃ first : GroupedSession, store'.sessions = store.sessions.insert name first ∧
      first.sessionName = name ∧ first.id = sessionId ∧ first.groupName = groupName ∧
      first.paneIds = [store.nextPaneId] ∧
      store'.groupRuntimeOwners = store.groupRuntimeOwners ∧
      store'.nextPaneId = Session.idAfter store.nextPaneId := by
  obtain ⟨⟨windowId, allocated⟩, halloc, rfl⟩ := map_eq_some_iff.mp h
  rw [allocateWindowId] at halloc
  split_ifs at halloc
  cases halloc
  exact ⟨_, rfl, sessionName_display name, rfl, rfl, paneIds_newWithInitialWindow name.display size
    baseIndex store.nextPaneId store.nextWindowId, rfl, rfl⟩

/-- The next pane identity is not in use. This can only fail when the counter has come to its
end. -/
def PaneIdsLeft (store : GroupStore) : Prop :=
  store.nextPaneId = maxPaneId →
    ∀ name session, store.sessions.get? name = some session → maxPaneId ∉ session.paneIds

theorem Sound.next_unused (h : Sound store) (hleft : PaneIdsLeft store)
    (hget : store.sessions.get? name = some session) : store.nextPaneId ∉ session.paneIds := by
  intro hmem
  rcases h.handed name session hget _ hmem with hlt | hmax
  · exact UInt32.lt_irrefl _ hlt
  · rw [hmax] at hmem
    exact hleft hmax name session hget hmem

/-- A first session fits in if its group is new. -/
theorem Sound.fits_first (h : Sound store) (hleft : PaneIdsLeft store)
    (hid : store.UnusedId sessionId)
    {first : GroupedSession} (hnm : first.sessionName = name) (hfirstId : first.id = sessionId)
    (hps : first.paneIds = [store.nextPaneId])
    (hgrp : ∀ groupName, first.groupName = some groupName →
      groupName ∉ store.groupRuntimeOwners) : Fits store.sessions name first where
  named := hnm
  id hget := hfirstId ▸ hid _ _ hget
  windows := by
    rintro name' session' hget ⟨groupName, hfst, ho⟩
    exact absurd (h.owned.owner hget ho) (hgrp groupName hfst)
  panes := by
    intro name' session' hget _ id hmem
    rw [hps, mem_singleton] at hmem
    rw [hmem]
    exact h.next_unused hleft hget

/-- The sessions with a first session of a new group, or of none. -/
theorem Sound.insertFirst (h : Sound store) (hleft : PaneIdsLeft store)
    (hid : store.UnusedId sessionId)
    (hins : store.insertFirst name size baseIndex sessionId groupName = some store')
    (hfree : ∀ name, groupName = some name → name ∉ store.groupRuntimeOwners) :
    (∃ first : GroupedSession, store'.sessions = store.sessions.insert name first ∧
      first.groupName = groupName) ∧
    store'.groupRuntimeOwners = store.groupRuntimeOwners ∧ Members store'.sessions ∧
      Handed store'.sessions store'.nextPaneId := by
  obtain ⟨first, hss, hnm, hfirstId, rfl, hps, hos, hnx⟩ :=
    insertFirst_spec hins
  refine ⟨⟨first, hss, rfl⟩, hos, ?_, ?_⟩
  · rw [hss]
    exact h.members.insert (h.fits_first hleft hid hnm hfirstId hps hfree)
  · rw [hss, hnx]
    refine h.handed.insert (fun id hid => hid.idAfter) fun id hid => ?_
    rw [hps, mem_singleton] at hid
    rw [hid]
    exact handedOut_self _

theorem Sound.createSessionWithBaseIndexAndId (h : Sound store) (hleft : PaneIdsLeft store)
    {r : Except StoreError Unit}
    (hcr : store.createSessionWithBaseIndexAndId name size baseIndex sessionId =
      some (r, store')) : Sound store' := by
  rw [GroupStore.createSessionWithBaseIndexAndId] at hcr
  cases href : store.refusal name sessionId with
  | some error =>
    rw [href] at hcr
    cases hcr
    exact h
  | none =>
    rw [href] at hcr
    obtain ⟨hnew, hid⟩ := refusal_eq_none href
    obtain ⟨inserted, hins, heq⟩ := map_eq_some_iff.mp hcr
    cases heq
    obtain ⟨⟨first, hss, hgrp⟩, hos, hmembers, hhanded⟩ :=
      h.insertFirst hleft hid hins fun _ hs => nomatch hs
    refine ⟨⟨hmembers, ?_⟩, hhanded⟩
    rw [hss, hos]
    exact h.owned.insert hnew fun groupName hs => nomatch hgrp.symm.trans hs

end Creation

/-! ## New sessions in a group -/

section Grouped

variable {store store' : GroupStore} {src : GroupedSession}
  {groupName groupTarget templateSession runtimeOwner : SessionName} {sessionId : ℕ}

/-- A template is in the group already, or it is a session without a group that the group is named
after. -/
theorem groupTemplate_existing (h : Owned store.sessions store.groupRuntimeOwners)
    (htmpl : store.groupTemplate groupTarget =
      .ok (.existing groupName templateSession runtimeOwner))
    (hsrc : store.session templateSession = some src) : src.groupName = some groupName ∨
      src.groupName = none ∧ groupName = templateSession ∧ templateSession = groupTarget := by
  unfold groupTemplate at htmpl
  split at htmpl
  · rename_i target htgt
    cases htmpl
    rw [htgt] at hsrc
    cases hsrc
    cases hgrp : src.groupName with
    | some groupName => exact .inl rfl
    | none => exact .inr ⟨rfl, rfl, rfl⟩
  · split at htmpl
    · rename_i owner ho
      obtain ⟨session, hsess, hgrp⟩ := h.owned ho
      rw [if_pos (mem_of_get? hsess)] at htmpl
      cases htmpl
      cases hsrc.symm.trans hsess
      exact .inl hgrp
    · cases htmpl

theorem groupTemplate_standalone
    (htmpl : store.groupTemplate groupTarget = .ok (.standalone groupName)) :
    groupName ∉ store.groupRuntimeOwners := by
  unfold groupTemplate at htmpl
  split at htmpl
  · cases htmpl
  · split at htmpl
    · split_ifs at htmpl
      · cases htmpl
      · split at htmpl <;> cases htmpl
    · rename_i ho
      cases htmpl
      exact not_mem_iff.mpr ho

/-- A session of a group can be copied. -/
theorem Sound.insertClone (h : Sound store) {member : GroupedSession}
    (hmember : store.sessions.get? templateSession = some member)
    (hgrp : member.groupName = some groupName) (hws : src.windows = member.windows)
    (hnew : name ∉ store.sessions) (hid : store.UnusedId sessionId) :
    Sound (store.insertClone src name groupName sessionId) := by
  have hps : src.paneIds = member.paneIds := paneIds_eq hws
  refine ⟨⟨h.members.insert ⟨sessionName_display name, hid _ _, ?_, ?_⟩, h.owned.insert hnew ?_⟩,
    h.handed.insert (fun _ hout => hout) ?_⟩
  · rintro name' session' hget ⟨groupName', hclone, ho⟩
    cases hclone
    exact hws.trans (h.members.windows hmember hget ⟨groupName, hgrp, ho⟩)
  · intro name' session' hget hnotSame id hmem
    have ho : session'.groupName ≠ some groupName := fun hs =>
      hnotSame ⟨groupName, rfl, hs⟩
    have hne : templateSession ≠ name' := by
      rintro rfl
      cases hmember.symm.trans hget
      exact ho hgrp
    refine h.members.panes hmember hget hne ?_ id (hps ▸ hmem)
    rintro ⟨groupName', hs, hs'⟩
    cases hgrp.symm.trans hs
    exact ho hs'
  · intro groupName' hclone
    cases hclone
    exact h.owned.owner hmember hgrp
  · intro id hmem
    exact h.handed _ _ hmember id (hps ▸ hmem)

/-- A session without a group can make one, if there is none of its name. -/
theorem Sound.joinGroup (h : Sound store) (hsrc : store.sessions.get? name = some src)
    (hn : src.groupName = none) (hclr : groupName ∉ store.groupRuntimeOwners) :
    Sound (store.joinGroup name src groupName) := by
  refine ⟨⟨?_, ?_⟩, h.handed.insert (fun _ hout => hout) fun id hmem =>
    h.handed _ _ hsrc id hmem⟩
  · show Members (store.sessions.insert name { src with groupName := some groupName })
    rw [← OrderedMap.insert_erase]
    have hnm : src.sessionName = name := h.members.named hsrc
    refine (h.members.erase name).insert ⟨hnm, ?_, ?_, ?_⟩
    · intro name' session' hget hsm
      obtain ⟨hne, hold⟩ := get?_erase_cases hget
      exact hne (h.members.ids hold hsrc hsm)
    · rintro name' session' hget ⟨groupName', hjoined, ho⟩
      cases hjoined
      exact absurd (h.owned.owner (get?_erase_cases hget).2 ho) hclr
    · intro name' session' hget _ id hmem
      obtain ⟨hne, hold⟩ := get?_erase_cases hget
      refine h.members.panes hsrc hold hne.symm ?_ id hmem
      rintro ⟨groupName', hs, -⟩
      rw [hn] at hs
      cases hs
  · show Owned _ (if groupName ∈ store.groupRuntimeOwners then _ else _)
    rw [if_neg hclr]
    refine h.owned.insertOwner rfl fun before hbef => ?_
    cases hsrc.symm.trans hbef
    exact hn

/-- A target that is a session without a group does not have the name of a group. -/
def TargetClear (store : GroupStore) (groupTarget : SessionName) : Prop :=
  ∀ session, store.sessions.get? groupTarget = some session → session.groupName = none →
    groupTarget ∉ store.groupRuntimeOwners

variable {size : TerminalSize} {baseIndex : ℕ}

theorem Sound.createFromTemplate (h : Sound store) (hclr : TargetClear store groupTarget)
    (htmpl : store.groupTemplate groupTarget =
      .ok (.existing groupName templateSession runtimeOwner))
    (hsrc : store.session templateSession = some src) (hnew : name ∉ store.sessions)
    (hid : store.UnusedId sessionId) :
    Sound ((if src.groupName.isNone then store.joinGroup templateSession src groupName
      else store).insertClone src name groupName sessionId) := by
  rcases groupTemplate_existing h.owned htmpl hsrc with hgrp | ⟨hn, rfl, rfl⟩
  · rw [if_neg (by simp [hgrp])]
    exact h.insertClone hsrc hgrp rfl hnew hid
  · rw [if_pos (by simp [hn])]
    have hjoined := h.joinGroup hsrc hn (hclr src hsrc hn)
    have hne : name ≠ groupName := by
      rintro rfl
      exact hnew (mem_of_get? hsrc)
    have hmember : (store.joinGroup groupName src groupName).sessions.get? groupName =
        some { src with groupName := some groupName } :=
      (get?_insert _ _ _ _).trans (if_pos rfl)
    refine hjoined.insertClone hmember rfl rfl ?_ fun name' session' hget => ?_
    · show name ∉ store.sessions.insert groupName _
      rw [mem_insert]
      exact fun hmem => hmem.elim hne hnew
    · rcases get?_insert_cases hget with ⟨rfl, rfl⟩ | hold
      · exact hid _ src hsrc
      · exact hid name' session' hold

theorem Sound.createGroupedSessionWithBaseIndexAndId (h : Sound store) (hleft : PaneIdsLeft store)
    (hclr : TargetClear store groupTarget) {r : Except StoreError GroupedSessionCreation}
    (hcr : store.createGroupedSessionWithBaseIndexAndId name size baseIndex groupTarget
      sessionId = some (r, store')) : Sound store' := by
  rw [GroupStore.createGroupedSessionWithBaseIndexAndId] at hcr
  cases href : store.refusal name sessionId with
  | some error =>
    rw [href] at hcr
    cases hcr
    exact h
  | none =>
    rw [href] at hcr
    obtain ⟨hnew, hid⟩ := refusal_eq_none href
    rcases htmpl : store.groupTemplate groupTarget with
      error | ⟨groupName, templateSession, runtimeOwner⟩ | groupName
    · rw [htmpl] at hcr
      cases hcr
      exact h
    · rw [htmpl] at hcr
      obtain ⟨src, hsrc, heq⟩ := map_eq_some_iff.mp hcr
      cases heq
      exact h.createFromTemplate hclr htmpl hsrc hnew hid
    · rw [htmpl] at hcr
      obtain ⟨inserted, hins, heq⟩ := map_eq_some_iff.mp hcr
      cases heq
      obtain ⟨⟨first, hss, hgrp⟩, hos, hmembers, hhanded⟩ :=
        h.insertFirst hleft hid hins (by rintro _ ⟨⟩; exact groupTemplate_standalone htmpl)
      refine ⟨⟨hmembers, ?_⟩, hhanded⟩
      rw [hss, hos]
      refine h.owned.insertOwner hgrp fun before hbef => ?_
      exact absurd (mem_of_get? hbef) hnew

end Grouped

/-! ## Removal and renaming -/

section Removal

variable {store : GroupStore} {newName : SessionName}

/-- An owner of another group is another session. -/
theorem Owned.owner_ne (h : Owned sessions owners) (hget : sessions.get? name = some session)
    {groupName owner : SessionName} (ho : owners.get? groupName = some owner)
    (hgrp : session.groupName ≠ some groupName) : owner ≠ name := by
  rintro rfl
  obtain ⟨session', hget', hgrp'⟩ := h.owned ho
  cases hget.symm.trans hget'
  exact hgrp hgrp'

theorem Owned.owned_erase (h : Owned sessions owners) {groupName owner : SessionName}
    (hne : owner ≠ name) (ho : owners.get? groupName = some owner) :
    ∃ session', (sessions.erase name).get? owner = some session' ∧
      session'.groupName = some groupName := by
  obtain ⟨session', hget, hgrp⟩ := h.owned ho
  refine ⟨session', ?_, hgrp⟩
  rw [get?_erase, if_neg hne]
  exact hget

theorem Owned.repair (h : Owned store.sessions store.groupRuntimeOwners)
    (hget : store.sessions.get? name = some session) : Owned (store.sessions.erase name)
      ({ store with sessions := store.sessions.erase name }.repairGroupRuntimeOwner
        session.groupName).groupRuntimeOwners := by
  have hmem {groupName name' : SessionName} := @mem_sessionsInGroup
    { store with sessions := store.sessions.erase name } groupName name'
  cases hgrp : session.groupName with
  | none =>
    exact ⟨fun hget' => h.owner (get?_erase_cases hget').2, fun ho =>
      h.owned_erase (h.owner_ne hget ho (by simp [hgrp])) ho⟩
  | some groupName =>
    have hos : ∀ {groupName' owner}, groupName' ≠ groupName →
        store.groupRuntimeOwners.get? groupName' = some owner →
        ∃ session', (store.sessions.erase name).get? owner = some session' ∧
          session'.groupName = some groupName' := by
      intro groupName' owner hne ho
      refine h.owned_erase (h.owner_ne hget ho ?_) ho
      rw [hgrp]
      exact fun hs => hne (some.inj hs).symm
    rw [repairGroupRuntimeOwner]
    split
    · rename_i hnil
      refine ⟨fun {name' session' groupName'} hget' hgrp' => ?_, fun {groupName' owner} ho => ?_⟩
      · rw [mem_erase]
        refine ⟨?_, h.owner (get?_erase_cases hget').2 hgrp'⟩
        rintro rfl
        have hmember := hmem.mpr ⟨session', hget', hgrp'⟩
        rw [hnil] at hmember
        cases hmember
      · rw [get?_erase] at ho
        split_ifs at ho with heq
        exact hos heq ho
    · rename_i first rest hcons
      refine ⟨fun {name' session' groupName'} hget' hgrp' => ?_, fun {groupName' owner} ho => ?_⟩
      · rw [mem_insert]
        exact .inr (h.owner (get?_erase_cases hget').2 hgrp')
      · rw [get?_insert] at ho
        split_ifs at ho with heq
        · cases ho
          rw [heq]
          refine hmem.mp ?_
          rw [hcons]
          cases ho : (store.groupRuntimeOwners.get? groupName).filter (· ∈ first :: rest) with
          | none => exact mem_cons_self
          | some owner => exact of_decide_eq_true (filter_eq_some_iff.mp ho).2
        · exact hos heq ho

theorem repairGroupRuntimeOwner_keeps (store : GroupStore) (groupName : Option SessionName) :
    (store.repairGroupRuntimeOwner groupName).sessions = store.sessions ∧
      (store.repairGroupRuntimeOwner groupName).nextPaneId = store.nextPaneId := by
  unfold repairGroupRuntimeOwner
  cases groupName with
  | none => exact ⟨rfl, rfl⟩
  | some groupName =>
    dsimp only
    split <;> exact ⟨rfl, rfl⟩

theorem Sound.removeSession (h : Sound store) (name : SessionName) :
    Sound (store.removeSession name).2 := by
  rw [GroupStore.removeSession]
  cases hget : store.session name with
  | none => exact h
  | some removed =>
    obtain ⟨hss, hnx⟩ := repairGroupRuntimeOwner_keeps
      { store with sessions := store.sessions.erase name } removed.groupName
    refine ⟨⟨?_, ?_⟩, ?_⟩
    · rw [hss]
      exact h.members.erase name
    · rw [hss]
      exact h.owned.repair hget
    · rw [hss, hnx]
      exact fun name' session' hget' => h.handed name' session' (get?_erase_cases hget').2

/-- The owners after a session is renamed. -/
theorem Owned.rename (h : Owned sessions owners) (hget : sessions.get? name = some session)
    (hnew : newName ∉ sessions) {renamed : GroupedSession}
    (hgrp : renamed.groupName = session.groupName) :
    Owned ((sessions.erase name).insert newName renamed)
      (match session.groupName with
        | some groupName =>
          if owners.get? groupName = some name then owners.insert groupName newName else owners
        | none => owners) := by
  -- a group that the renamed session does not own
  have hos : ∀ {groupName owner}, owner ≠ name → owners.get? groupName = some owner →
      ∃ session', ((sessions.erase name).insert newName renamed).get? owner = some session' ∧
        session'.groupName = some groupName := by
    intro groupName owner hne ho
    obtain ⟨session', hget', hgrp'⟩ := h.owned_erase hne ho
    refine ⟨session', ?_, hgrp'⟩
    rw [get?_insert, if_neg]
    · exact hget'
    · rintro rfl
      exact hnew (mem_of_get? (get?_erase_cases hget').2)
  have ho : ∀ {name' session' groupName},
      ((sessions.erase name).insert newName renamed).get? name' = some session' →
      session'.groupName = some groupName → groupName ∈ owners := by
    intro name' session' groupName hget' hgrp'
    rcases get?_insert_cases hget' with ⟨rfl, rfl⟩ | hold
    · exact h.owner hget (hgrp ▸ hgrp')
    · exact h.owner (get?_erase_cases hold).2 hgrp'
  split
  · rename_i groupName hs
    split_ifs with howns
    · refine ⟨fun hget' hgrp' => ?_, fun {groupName' owner} hown' => ?_⟩
      · exact mem_insert.mpr (.inr (ho hget' hgrp'))
      · rw [get?_insert] at hown'
        split_ifs at hown' with heq
        · cases hown'
          refine ⟨renamed, by rw [get?_insert, if_pos rfl], ?_⟩
          rw [hgrp, hs, heq]
        · refine hos (h.owner_ne hget hown' ?_) hown'
          rw [hs]
          exact fun hsm => heq (some.inj hsm).symm
    · refine ⟨ho, fun {groupName' owner} hown' => hos ?_ hown'⟩
      rintro rfl
      obtain ⟨session', hget', hgrp'⟩ := h.owned hown'
      cases hget.symm.trans hget'
      cases hs.symm.trans hgrp'
      exact howns hown'
  · rename_i hn
    refine ⟨ho, fun {groupName' owner} hown' => hos (h.owner_ne hget hown' ?_) hown'⟩
    rw [hn]
    nofun

theorem Sound.renameSession (h : Sound store) (name newName : SessionName) :
    Sound (store.renameSession name newName).2 := by
  rw [GroupStore.renameSession]
  cases hget : store.session name with
  | none => exact h
  | some session =>
    split_ifs with hnew
    · exact h
    · refine ⟨⟨?_, h.owned.rename hget hnew rfl⟩, ?_⟩
      · refine (h.members.erase name).insert ⟨sessionName_display newName, ?_, ?_, ?_⟩
        · intro name' session' hget' hsm
          obtain ⟨hne, hold⟩ := get?_erase_cases hget'
          exact hne (h.members.ids hold hget hsm)
        · intro name' session' hget' hsm
          show session.windows = session'.windows
          exact h.members.windows hget (get?_erase_cases hget').2 hsm
        · intro name' session' hget' hsm
          obtain ⟨hne, hold⟩ := get?_erase_cases hget'
          show ∀ id ∈ session.paneIds, id ∉ session'.paneIds
          exact h.members.panes hget hold hne.symm hsm
      · have herased : Handed (store.sessions.erase name) store.nextPaneId :=
          fun name' session' hget' => h.handed name' session' (get?_erase_cases hget').2
        exact herased.insert (fun _ hout => hout) fun id hmem => h.handed name session hget id hmem

end Removal

/-! ## Changes to windows -/

section Changes

variable {store : GroupStore} {change : WindowChange} {name' : SessionName}

/-- A session that follows another one. -/
def follow (changed : Session) (session : GroupedSession) : GroupedSession :=
  { session with toSession := session.toSession.synchronizeGroupFrom changed }

theorem get?_synchronize (store : GroupStore) (changed : Session) {peers : List SessionName}
    (hpeers : peers.Nodup) (name : SessionName) :
    (peers.foldl (fun store peer => store.synchronize changed peer) store).sessions.get? name =
      if name ∈ peers then (store.sessions.get? name).map (follow changed)
      else store.sessions.get? name := by
  induction peers generalizing store with
  | nil => rfl
  | cons peer peers ih =>
    obtain ⟨hpeer, hpeers⟩ := nodup_cons.mp hpeers
    rw [foldl_cons, ih _ hpeers, synchronize, get?_modify]
    by_cases heq : name = peer
    · rw [if_neg (heq ▸ hpeer), if_pos heq, if_pos (heq ▸ mem_cons_self), heq]
      rfl
    · rw [if_neg heq]
      simp [heq]

theorem synchronize_keeps (store : GroupStore) (changed : Session) (peers : List SessionName) :
    (peers.foldl (fun store peer => store.synchronize changed peer) store).groupRuntimeOwners =
        store.groupRuntimeOwners ∧
      (peers.foldl (fun store peer => store.synchronize changed peer) store).nextPaneId =
        store.nextPaneId := by
  induction peers generalizing store with
  | nil => exact ⟨rfl, rfl⟩
  | cons peer peers ih => exact ih _

/-- The session after a change. -/
def changed (store : GroupStore) (session : GroupedSession) (change : WindowChange) : Session :=
  change.apply { session.toSession with nextWindowId := store.nextWindowId }

theorem mem_peers (hget : store.sessions.get? name = some session) {session' : GroupedSession}
    (hget' : store.sessions.get? name' = some session') :
    name' ∈ (store.sessionGroupMembers name).filter (· ≠ name) ↔
      name' ≠ name ∧ SameGroup session session' := by
  rw [mem_filter, decide_eq_true_eq, and_comm, sessionGroupMembers, GroupStore.session, hget]
  refine and_congr_right fun hne => ?_
  cases hgrp : session.groupName with
  | none =>
    refine iff_of_false (by simpa [hgrp] using hne) ?_
    rintro ⟨groupName, hs, -⟩
    cases hgrp.symm.trans hs
  | some groupName =>
    rw [bind_some, hgrp]
    rw [mem_sessionsInGroup]
    constructor
    · rintro ⟨session'', hget'', hgrp'⟩
      cases hget'.symm.trans hget''
      exact ⟨groupName, hgrp, hgrp'⟩
    · rintro ⟨groupName', hs, hgrp'⟩
      cases hgrp.symm.trans hs
      exact ⟨session', hget', hgrp'⟩

theorem nodup_peers (store : GroupStore) (name : SessionName) :
    ((store.sessionGroupMembers name).filter (· ≠ name)).Nodup := by
  refine List.Nodup.filter _ ?_
  rw [sessionGroupMembers]
  split
  · exact store.sessions.nodup_keys.sublist (filter_sublist.map Prod.fst)
  · exact nodup_singleton name

/-- What a session is after a change to `name` : it shows the changed windows if it is `name` or in
its group, and is as it was otherwise. -/
structure Follows (store : GroupStore) (name : SessionName) (session : GroupedSession)
    (change : WindowChange) (name' : SessionName) (before after : GroupedSession) : Prop where
  id : after.id = before.id
  groupName : after.groupName = before.groupName
  named : after.sessionName = before.sessionName
  shares : (name' = name ∨ SameGroup session before) →
    after.windows = (changed store session change).windows
  keeps : name' ≠ name → ¬ SameGroup session before → after = before

theorem get?_changeWindows (hget : store.sessions.get? name = some session)
    (change : WindowChange) (name' : SessionName) :
    (store.changeWindows name change).sessions.get? name' =
      if name' ∈ (store.sessionGroupMembers name).filter (· ≠ name) then
        ((store.sessions.insert name
          { session with toSession := changed store session change }).get? name').map
            (follow (changed store session change))
      else (store.sessions.insert name
          { session with toSession := changed store session change }).get? name' := by
  rw [changeWindows, GroupStore.session, hget]
  exact get?_synchronize _ (changed store session change) (nodup_peers store name) name'

theorem follows_changeWindows (hget : store.sessions.get? name = some session)
    (change : WindowChange) {before : GroupedSession}
    (hbef : store.sessions.get? name' = some before) :
    ∃ after, (store.changeWindows name change).sessions.get? name' = some after ∧
      Follows store name session change name' before after := by
  rw [get?_changeWindows hget, get?_insert]
  by_cases hnm : name' = name
  · have hnot : name' ∉ (store.sessionGroupMembers name).filter (· ≠ name) := by
      simp [hnm]
    subst hnm
    cases hget.symm.trans hbef
    rw [if_neg hnot, if_pos rfl]
    refine ⟨_, rfl, rfl, rfl, ?_, fun _ => rfl, fun hne => absurd rfl hne⟩
    exact congrArg (fun title : String => SessionName.mk title.toList) (change.name_eq _)
  · rw [if_neg hnm, hbef]
    by_cases hsm : SameGroup session before
    · rw [if_pos ((mem_peers hget hbef).mpr ⟨hnm, hsm⟩)]
      exact ⟨_, rfl, rfl, rfl, rfl, fun _ => rfl, fun _ hnot => absurd hsm hnot⟩
    · rw [if_neg fun hmem => hsm ((mem_peers hget hbef).mp hmem).2]
      exact ⟨before, rfl, rfl, rfl, rfl, fun hor => absurd hor (not_or.mpr ⟨hnm, hsm⟩),
        fun _ _ => rfl⟩

/-- Every session after a change was there before. -/
theorem exists_before (hget : store.sessions.get? name = some session) {after : GroupedSession}
    (haft : (store.changeWindows name change).sessions.get? name' = some after) :
    ∃ before, store.sessions.get? name' = some before ∧
      Follows store name session change name' before after := by
  cases hbef : store.sessions.get? name' with
  | some before =>
    obtain ⟨after', haft', hfol⟩ := follows_changeWindows hget change hbef
    cases haft.symm.trans haft'
    exact ⟨before, rfl, hfol⟩
  | none =>
    have hne : name' ≠ name := by
      rintro rfl
      rw [hget] at hbef
      cases hbef
    rw [get?_changeWindows hget, get?_insert, if_neg hne, hbef] at haft
    split_ifs at haft
    cases haft

theorem changeWindows_keeps (hget : store.sessions.get? name = some session)
    (change : WindowChange) :
    (store.changeWindows name change).groupRuntimeOwners = store.groupRuntimeOwners ∧
      (store.changeWindows name change).nextPaneId = store.nextPaneId := by
  rw [changeWindows, GroupStore.session, hget]
  exact synchronize_keeps _ _ _

/-- A change brings panes of the session itself, or panes with identities from the store that no
session outside of its group has. -/
def BringsOwnPanes (store : GroupStore) (name : SessionName) (change : WindowChange) : Prop :=
  ∀ session, store.sessions.get? name = some session →
    ∀ id ∈ (changed store session change).paneIds, id ∈ session.paneIds ∨
      HandedOut store.nextPaneId id ∧
        ∀ name' session', store.sessions.get? name' = some session' → name' ≠ name →
          ¬ SameGroup session session' → id ∉ session'.paneIds

section Follow

variable (h : Sound store) (hown : BringsOwnPanes store name change)
  (hget : store.sessions.get? name = some session)

include h hown hget

/-- No pane of the changed windows is in a session outside of the group. -/
theorem Sound.changed_panes {name' : SessionName} {other : GroupedSession}
    (ho : store.sessions.get? name' = some other) (hne : name' ≠ name)
    (hnot : ¬ SameGroup session other) :
    ∀ id ∈ (changed store session change).paneIds, id ∉ other.paneIds := by
  intro id hid
  rcases hown session hget id hid with hold | ⟨-, hfree⟩
  · exact h.members.panes hget ho hne.symm hnot id hold
  · exact hfree name' other ho hne hnot

theorem Sound.members_changeWindows : Members (store.changeWindows name change).sessions := by
  refine ⟨fun hafter => ?_, fun hafter hafter' hid => ?_, fun hafter hafter' hsm => ?_,
    fun {name₁ after₁ name₂ after₂} hafter hafter' hne hnot => ?_⟩
  · obtain ⟨before, hbefore, hfollows⟩ := exists_before hget hafter
    rw [hfollows.named]
    exact h.members.named hbefore
  · obtain ⟨before, hbefore, hfollows⟩ := exists_before hget hafter
    obtain ⟨before', hbefore', hfollows'⟩ := exists_before hget hafter'
    rw [hfollows.id, hfollows'.id] at hid
    exact h.members.ids hbefore hbefore' hid
  · obtain ⟨before, hbefore, hfollows⟩ := exists_before hget hafter
    obtain ⟨before', hbefore', hfollows'⟩ := exists_before hget hafter'
    obtain ⟨groupName, hgrp, hgrp'⟩ := hsm
    rw [hfollows.groupName] at hgrp
    rw [hfollows'.groupName] at hgrp'
    by_cases hin : session.groupName = some groupName
    · rw [hfollows.shares (.inr ⟨groupName, hin, hgrp⟩),
        hfollows'.shares (.inr ⟨groupName, hin, hgrp'⟩)]
    · have hout : ∀ {name' other}, store.sessions.get? name' = some other →
          other.groupName = some groupName → name' ≠ name ∧ ¬ SameGroup session other := by
        intro name' other hother hgroup
        constructor
        · rintro rfl
          cases hget.symm.trans hother
          exact hin hgroup
        · rintro ⟨groupName', hsession, hgroup'⟩
          cases hgroup.symm.trans hgroup'
          exact hin hsession
      obtain ⟨hne, hnot⟩ := hout hbefore hgrp
      obtain ⟨hne', hnot'⟩ := hout hbefore' hgrp'
      rw [hfollows.keeps hne hnot, hfollows'.keeps hne' hnot']
      exact h.members.windows hbefore hbefore' ⟨groupName, hgrp, hgrp'⟩
  · obtain ⟨before₁, hbefore₁, hfollows₁⟩ := exists_before hget hafter
    obtain ⟨before₂, hbefore₂, hfollows₂⟩ := exists_before hget hafter'
    have hnb : ¬ SameGroup before₁ before₂ := by
      rintro ⟨groupName, hgrp, hgrp'⟩
      exact hnot ⟨groupName, hfollows₁.groupName.trans hgrp, hfollows₂.groupName.trans hgrp'⟩
    by_cases hin₁ : name₁ = name ∨ SameGroup session before₁
    · have hout : name₂ ≠ name ∧ ¬ SameGroup session before₂ := by
        rcases hin₁ with rfl | ⟨groupName, hsession, hfirst⟩
        · cases hget.symm.trans hbefore₁
          exact ⟨hne.symm, hnb⟩
        · refine ⟨?_, ?_⟩
          · rintro rfl
            cases hget.symm.trans hbefore₂
            exact hnb ⟨groupName, hfirst, hsession⟩
          · rintro ⟨groupName', hsession', hsecond⟩
            cases hsession.symm.trans hsession'
            exact hnb ⟨groupName, hfirst, hsecond⟩
      rw [paneIds_eq (hfollows₁.shares hin₁), hfollows₂.keeps hout.1 hout.2]
      exact h.changed_panes hown hget hbefore₂ hout.1 hout.2
    · obtain ⟨hne₁, hnot₁⟩ := not_or.mp hin₁
      rw [hfollows₁.keeps hne₁ hnot₁]
      by_cases hin₂ : name₂ = name ∨ SameGroup session before₂
      · rw [paneIds_eq (hfollows₂.shares hin₂)]
        exact fun id hid hid' => h.changed_panes hown hget hbefore₁ hne₁ hnot₁ id hid' hid
      · obtain ⟨hne₂, hnot₂⟩ := not_or.mp hin₂
        rw [hfollows₂.keeps hne₂ hnot₂]
        exact h.members.panes hbefore₁ hbefore₂ hne hnb

theorem Sound.handed_changeWindows :
    Handed (store.changeWindows name change).sessions store.nextPaneId := by
  intro name' after haft id hid
  obtain ⟨before, hbef, hfol⟩ := exists_before hget haft
  by_cases hin : name' = name ∨ SameGroup session before
  · rw [paneIds_eq (hfol.shares hin)] at hid
    rcases hown session hget id hid with hold | ⟨hout, -⟩
    · exact h.handed name session hget id hold
    · exact hout
  · obtain ⟨hne, hnot⟩ := not_or.mp hin
    rw [hfol.keeps hne hnot] at hid
    exact h.handed name' before hbef id hid

end Follow

theorem Owned.changeWindows (h : Owned store.sessions store.groupRuntimeOwners)
    (hget : store.sessions.get? name = some session) :
    Owned (store.changeWindows name change).sessions store.groupRuntimeOwners := by
  refine ⟨fun haft hgrp => ?_, fun ho => ?_⟩
  · obtain ⟨before, hbef, hfol⟩ := exists_before hget haft
    exact h.owner hbef (hfol.groupName.symm.trans hgrp)
  · obtain ⟨before, hbef, hgrp⟩ := h.owned ho
    obtain ⟨after, haft, hfol⟩ := follows_changeWindows hget change hbef
    exact ⟨after, haft, hfol.groupName.trans hgrp⟩

theorem Sound.changeWindows (h : Sound store) (hown : BringsOwnPanes store name change) :
    Sound (store.changeWindows name change) := by
  cases hget : store.sessions.get? name with
  | none =>
    rw [GroupStore.changeWindows, GroupStore.session, hget]
    exact h
  | some session =>
    obtain ⟨hos, hnx⟩ := changeWindows_keeps hget change
    refine ⟨⟨h.members_changeWindows hown hget, ?_⟩, ?_⟩
    · rw [hos]
      exact h.owned.changeWindows hget
    · rw [hnx]
      exact h.handed_changeWindows hown hget

end Changes

/-! ## Whole runs -/

/-- What a request needs. -/
def Allows (store : GroupStore) : GroupRequest → Prop
  | .createSession _ _ _ | .createAutoNamedSession _ _ => PaneIdsLeft store
  | .createGroupedSession _ _ _ groupTarget | .createAutoGroupedSession _ _ groupTarget =>
    PaneIdsLeft store ∧ TargetClear store groupTarget
  | .changeWindows name change => BringsOwnPanes store name change
  | .renameSession _ _ | .removeSession _ | .allocatePaneId => True

section Steps

variable {store store' : GroupStore}

theorem Sound.allocatePaneId (h : Sound store) : Sound store.allocatePaneId.2 :=
  ⟨⟨h.members, h.owned⟩,
    fun name session hget id hid => (h.handed name session hget id hid).idAfter⟩

theorem Sound.step (h : Sound store) {request : GroupRequest} (hall : store.Allows request)
    (hst : store.step request = some store') : Sound store' := by
  cases request with
  | createSession name size baseIndex =>
    obtain ⟨⟨r, after⟩, hcr, rfl⟩ := map_eq_some_iff.mp hst
    obtain ⟨⟨id, allocated⟩, halloc, hcr⟩ := bind_eq_some_iff.mp hcr
    obtain ⟨hsnd, counter, rfl⟩ := h.allocateSessionId halloc
    exact hsnd.createSessionWithBaseIndexAndId hall hcr
  | createAutoNamedSession size baseIndex =>
    obtain ⟨⟨r, after⟩, hcr, rfl⟩ := map_eq_some_iff.mp hst
    obtain ⟨⟨name, id⟩, -, hcr⟩ := bind_eq_some_iff.mp hcr
    obtain ⟨⟨r', after'⟩, hcr, heq⟩ := map_eq_some_iff.mp hcr
    cases heq
    exact h.createSessionWithBaseIndexAndId hall hcr
  | createGroupedSession name size baseIndex groupTarget =>
    obtain ⟨⟨r, after⟩, hcr, rfl⟩ := map_eq_some_iff.mp hst
    obtain ⟨⟨id, allocated⟩, halloc, hcr⟩ := bind_eq_some_iff.mp hcr
    obtain ⟨hsnd, counter, rfl⟩ := h.allocateSessionId halloc
    exact hsnd.createGroupedSessionWithBaseIndexAndId hall.1 hall.2 hcr
  | createAutoGroupedSession size baseIndex groupTarget =>
    obtain ⟨⟨r, after⟩, hcr, rfl⟩ := map_eq_some_iff.mp hst
    obtain ⟨⟨name, id⟩, -, hcr⟩ := bind_eq_some_iff.mp hcr
    exact h.createGroupedSessionWithBaseIndexAndId hall.1 hall.2 hcr
  | renameSession name newName =>
    cases hst
    exact h.renameSession name newName
  | removeSession name =>
    cases hst
    exact h.removeSession name
  | allocatePaneId =>
    cases hst
    exact h.allocatePaneId
  | changeWindows name change =>
    cases hst
    exact h.changeWindows hall

theorem after_concat (requests : List GroupRequest) (request : GroupRequest) :
    after (requests ++ [request]) = (after requests).bind fun store => store.step request := by
  simp [after, foldlM_append]

/-- Every request of a run is one that the store before it allows. -/
def AllowedRun (requests : List GroupRequest) : Prop :=
  ∀ before request store, before ++ [request] <+: requests → after before = some store →
    store.Allows request

theorem sound_after {requests : List GroupRequest} (hallow : AllowedRun requests)
    (haft : after requests = some store) : Sound store := by
  induction requests using reverseRecOn generalizing store with
  | nil =>
    cases haft
    exact ⟨⟨⟨nofun, nofun, nofun, nofun⟩, ⟨nofun, nofun⟩⟩, nofun⟩
  | append_singleton requests request ih =>
    rw [after_concat] at haft
    obtain ⟨before, hbef, hst⟩ := bind_eq_some_iff.mp haft
    have hfst : AllowedRun requests := fun before' request' store' hprefixed =>
      hallow before' request' store' (hprefixed.trans (prefix_append _ _))
    exact (ih hfst hbef).step (hallow requests request before prefix_rfl hbef) hst

/-- In every run of allowed requests the sessions of a group share their windows. -/
theorem groups_share_windows {requests : List GroupRequest} {store : GroupStore}
    (hallowed : AllowedRun requests) (hafter : after requests = some store) : Consistent store :=
  (sound_after hallowed hafter).toConsistent

end Steps

/-- A session, another one in its group, and a new name for the first. -/
theorem groups_share_windows_renamed :
    ∃ store, after [.createSession ⟨['a']⟩ ⟨80, 24⟩ 0,
        .createGroupedSession ⟨['b']⟩ ⟨80, 24⟩ 0 ⟨['a']⟩, .renameSession ⟨['a']⟩ ⟨['x']⟩] =
      some store ∧ store.Consistent := by
  have hrun : after [.createSession ⟨['a']⟩ ⟨80, 24⟩ 0,
      .createGroupedSession ⟨['b']⟩ ⟨80, 24⟩ 0 ⟨['a']⟩, .renameSession ⟨['a']⟩ ⟨['x']⟩] =
    some _ := rfl
  refine ⟨_, hrun, groups_share_windows ?_ hrun⟩
  intro before request store hbefore hafter
  rcases before with _ | ⟨first, _ | ⟨second, _ | ⟨third, rest⟩⟩⟩
  · obtain ⟨rfl, -⟩ := cons_prefix_cons.mp hbefore
    cases hafter
    exact fun hmax => absurd hmax (by decide)
  · simp only [cons_append, nil_append, cons_prefix_cons] at hbefore
    obtain ⟨rfl, rfl, -⟩ := hbefore
    cases hafter
    exact ⟨fun hmax => absurd hmax (by decide), fun _ _ _ => not_mem_empty _⟩
  · simp only [cons_append, nil_append, cons_prefix_cons] at hbefore
    obtain ⟨rfl, rfl, rfl, -⟩ := hbefore
    exact trivial
  · simp [cons_prefix_cons] at hbefore

theorem createWindow_name (session : Session) (size : TerminalSize) :
    (session.createWindow size).2.name = session.name := by
  rw [createWindow, createWindowAtOrAbove]
  dsimp only
  rw [createWindowAtOrAboveWithPaneId]
  cases session.allocatePaneId.2.lowestAvailableWindowIndexAtOrAbove 0 with
  | error error | ok windowIndex => rfl

/-- A window more, with a pane identity from the session's own counter. -/
def createWindowChange : WindowChange where
  apply session := (session.createWindow ⟨80, 24⟩).2
  name_eq session := createWindow_name session ⟨80, 24⟩

/-- The group and the panes of a session. -/
def seen (store : GroupStore) (name : SessionName) : Option (Option SessionName × List PaneId) :=
  (store.sessions.get? name).map fun session => (session.groupName, session.paneIds)

section Seen

variable {store : GroupStore} {name' groupName : SessionName} {panes panes' : List PaneId}

theorem seen_eq_some {group : Option SessionName} : store.seen name = some (group, panes) ↔
    ∃ session, store.sessions.get? name = some session ∧ session.groupName = group ∧
      session.paneIds = panes := by
  simp [seen]

theorem Consistent.seen_same (h : store.Consistent)
    (hseen : store.seen name = some (some groupName, panes))
    (hseen' : store.seen name' = some (some groupName, panes')) : panes = panes' := by
  obtain ⟨session, hget, hgrp, rfl⟩ := seen_eq_some.mp hseen
  obtain ⟨session', hget', hgrp', rfl⟩ := seen_eq_some.mp hseen'
  exact paneIds_eq (h.members.windows hget hget' ⟨groupName, hgrp, hgrp'⟩)

theorem Consistent.seen_apart (h : store.Consistent) (hne : name ≠ name')
    (hseen : store.seen name = some (none, panes))
    (hseen' : store.seen name' = some (none, panes')) : ∀ id ∈ panes, id ∉ panes' := by
  obtain ⟨session, hget, hgrp, rfl⟩ := seen_eq_some.mp hseen
  obtain ⟨session', hget', -, rfl⟩ := seen_eq_some.mp hseen'
  refine h.members.panes hget hget' hne ?_
  rintro ⟨groupName, hs, -⟩
  rw [hgrp] at hs
  cases hs

end Seen

/-- `b` is grouped with `a`, which is renamed to `x`. A new session takes the name `a`, and `c` is
grouped with it : all four are in the group `a`, with two different windows. And a session that
takes a pane identity from its own counter takes that of another session. -/
theorem groups_come_apart :
    (∃ store, after [.createSession ⟨['a']⟩ ⟨80, 24⟩ 0,
        .createGroupedSession ⟨['b']⟩ ⟨80, 24⟩ 0 ⟨['a']⟩, .renameSession ⟨['a']⟩ ⟨['x']⟩,
        .createSession ⟨['a']⟩ ⟨80, 24⟩ 0, .createGroupedSession ⟨['c']⟩ ⟨80, 24⟩ 0 ⟨['a']⟩] =
          some store ∧ ¬ store.Consistent) ∧
    ∃ store, after [.createSession ⟨['a']⟩ ⟨80, 24⟩ 0, .createSession ⟨['b']⟩ ⟨80, 24⟩ 0,
      .changeWindows ⟨['a']⟩ createWindowChange] = some store ∧ ¬ store.Consistent := by
  refine ⟨⟨_, rfl, fun hconsistent => ?_⟩, ⟨_, rfl, fun hconsistent => ?_⟩⟩
  · have hpanes : [(0 : PaneId)] = [1] := hconsistent.seen_same
      (show seen _ ⟨['x']⟩ = some (some ⟨['a']⟩, [0]) from by decide +kernel)
      (show seen _ ⟨['a']⟩ = some (some ⟨['a']⟩, [1]) from by decide +kernel)
    exact absurd hpanes (by decide)
  · exact hconsistent.seen_apart (show (⟨['a']⟩ : SessionName) ≠ ⟨['b']⟩ by decide)
      (show seen _ ⟨['a']⟩ = some (none, [0, 1]) from by decide +kernel)
      (show seen _ ⟨['b']⟩ = some (none, [1]) from by decide +kernel) 1 (by decide) (by decide)

end GroupStore

end Rmux
