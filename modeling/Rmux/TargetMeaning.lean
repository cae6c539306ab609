import Rmux.ExceptLemmas
import Rmux.TargetFind

/-!
# What targets mean

What is found exists (`SessionStore.designates_of_resolve`), and the text of a target is read back as
that target in every context if its session name is not taken for something else
(`SessionStore.resolve_display`).
-/

namespace Rmux

open MachineInt Except List Option Nat OrderedMap Window

variable (c : Char)

/-! ## The invariant of sessions -/

/-- The selected panes exist, and panes are told apart. -/
structure Window.Selected (w : Window) : Prop where
  active : (w.pane w.activePane).isSome
  last : ∀ index, w.lastPane = some index → (w.pane index).isSome ∧ index ≠ w.activePane
  indices : (w.panes.map Pane.index).Nodup
  ids : (w.panes.map Pane.id).Nodup

/-- The active window exists, and so does the last one, which differs from it. -/
structure Session.Selected (s : Session) : Prop where
  nonempty : s.windows.entries ≠ []
  active : s.activeWindow ∈ s.windows
  last : ∀ index, s.lastWindow = some index → index ∈ s.windows ∧ index ≠ s.activeWindow
  flags : s.winlinkAlertFlags.keys = s.windows.keys
  windows : ∀ index window, s.windowAt index = some window → window.Selected

/-- Every session has its invariant, and ids are used once. -/
structure SessionStore.WellFormed (store : SessionStore) : Prop where
  selected : ∀ name session, store.session name = some session → session.Selected
  sessionIds : (store.iter.map fun e => e.2.id).Nodup
  windowIds : (store.iter.flatMap fun e => e.2.windows.entries.map fun w => w.2.id).Nodup
  paneIds : (store.iter.flatMap fun e =>
    e.2.windows.entries.flatMap fun w => w.2.panes.map Pane.id).Nodup

namespace SessionStore

export Except (Holds)

variable {store : SessionStore} {parts : ResolvedParts} {name : SessionName}
  {session : StoredSession} (findType : TargetFindType) (context : TargetFindContext)

/-! ## What is found exists -/

def HasSession (store : SessionStore) (name : SessionName) : Prop := (store.session name).isSome

def HasWindow (store : SessionStore) (name : SessionName) (windowIndex : ℕ) : Prop :=
  ∃ session, store.session name = some session ∧ windowIndex ∈ session.windows

def HasPane (store : SessionStore) (name : SessionName) (windowIndex paneIndex : ℕ) : Prop :=
  ∃ session window, store.session name = some session ∧
    session.windowAt windowIndex = some window ∧ (window.pane paneIndex).isSome

/-- The target is there. -/
def Designates (store : SessionStore) : Target → Prop
  | .session name => store.HasSession name
  | .window target => store.HasWindow target.sessionName target.windowIndex
  | .pane target => store.HasPane target.sessionName target.windowIndex target.paneIndex

/-- The window of the parts is there. -/
def OnWindow (store : SessionStore) (parts : ResolvedParts) : Prop :=
  store.HasWindow parts.sessionName parts.windowIndex

def OnPane (store : SessionStore) (parts : ResolvedParts) : Prop :=
  store.HasPane parts.sessionName parts.windowIndex parts.paneIndex

theorem OnPane.onWindow (h : store.OnPane parts) : store.OnWindow parts := by
  obtain ⟨session, w, hsession, hw, -⟩ := h
  exact ⟨session, hsession, mem_of_get? hw⟩

theorem OnWindow.hasSession (h : store.OnWindow parts) : store.HasSession parts.sessionName := by
  obtain ⟨session, hsession, -⟩ := h
  rw [HasSession, hsession]
  rfl

theorem OnPane.designates (h : store.OnPane parts) (findType : TargetFindType) :
    store.Designates (targetForType findType parts) := by
  cases findType with
  | session => exact h.onWindow.hasSession
  | window => exact h.onWindow
  | pane => exact h

theorem OnWindow.designates (h : store.OnWindow parts) {findType : TargetFindType}
    (hp : findType ≠ .pane) : store.Designates (targetForType findType parts) := by
  cases findType with
  | session => exact h.hasSession
  | window => exact h
  | pane => exact absurd rfl hp

theorem mem_iter : (name, session) ∈ store.iter ↔ store.session name = some session := by
  rw [SessionStore.session, ← mem_def, AList.mem_lookup_iff, iter, List.mem_map]
  constructor
  · rintro ⟨⟨name', session'⟩, hmem, heq⟩
    cases heq
    exact hmem
  · intro hmem
    exact ⟨⟨name, session⟩, hmem, rfl⟩

theorem sessionName_of_session (h : store.session name = some session) :
    session.sessionName = name :=
  store.named name session h

theorem hasSession_of_mem (h : (name, session) ∈ store.iter) : store.HasSession name := by
  rw [HasSession, mem_iter.mp h]
  rfl

theorem holds_expectSession (name : SessionName) :
    Holds (fun session => store.session name = some session) (store.expectSession name) := by
  rw [expectSession]
  cases store.session name with
  | none => exact holds_error _
  | some session => exact holds_ok rfl

theorem holds_uniqueMatch {α : Type} (found : List α) (v : Text) (kind : String) :
    Holds (fun r => ∀ a, r = some a → a ∈ found) (uniqueMatch found v kind) := by
  rw [uniqueMatch]
  split_ifs
  · exact holds_error _
  · exact holds_ok fun a ha => mem_of_mem_head? ha

/-! ### Sessions -/

theorem holds_defaultSessionName (flags : TargetFindFlags) :
    Holds store.HasSession (store.defaultSessionName flags) := by
  rw [defaultSessionName]
  split
  · rename_i e he
    have hmem := mem_reverse.mp (argmax_mem (mem_def.mpr he))
    have hiter : e ∈ store.iter := by
      split_ifs at hmem
      · exact hmem
      · exact mem_of_mem_filter hmem
      · exact hmem
      · exact absurd rfl ‹_›
    exact holds_ok (hasSession_of_mem hiter)
  · exact holds_error _

theorem holds_activePane {windowIndex : ℕ} (error : RmuxError)
    (hsession : store.session name = some session) : Holds store.OnPane
      (match (session.windowAt windowIndex).bind Window.activePane? with
        | some pane => .ok (.pane name windowIndex pane.index)
        | none => .error error) := by
  cases hp : (session.windowAt windowIndex).bind Window.activePane? with
  | none => exact holds_error _
  | some pane =>
    obtain ⟨w, hw, hact⟩ := bind_eq_some_iff.mp hp
    have hmem : pane ∈ w.panes := mem_of_find?_eq_some hact
    exact holds_ok ⟨session, w, hsession, hw, Window.pane_isSome_of_mem hmem⟩

theorem holds_partsForSessionCurrent (name : SessionName) :
    Holds store.OnPane (store.partsForSessionCurrent name) := by
  rw [partsForSessionCurrent]
  exact (holds_expectSession _).bind fun session hsession => holds_activePane _ hsession

theorem holds_windowCurrentPane (w : ResolvedParts) :
    Holds store.OnPane (store.windowCurrentPane w) := by
  rw [windowCurrentPane]
  exact (holds_expectSession _).bind fun session hsession => holds_activePane _ hsession

/-! ### The context -/

theorem holds_partsForTarget (current : Target) :
    Holds store.OnPane (store.partsForTarget current) := by
  rw [partsForTarget]
  refine (holds_expectSession _).bind fun session hsession => ?_
  dsimp only
  split
  · exact holds_error _
  · rename_i window hw
    split_ifs with hn
    · exact holds_error _
    · refine holds_ok ⟨session, window, hsession, hw, ?_⟩
      exact ne_none_iff_isSome.mp fun h => hn (isNone_iff_eq_none.mpr h)

theorem holds_currentParts : Holds store.OnPane (store.currentParts context) := by
  rw [currentParts]
  cases context.current with
  | none => exact holds_error _
  | some current => exact holds_partsForTarget current

theorem holds_targetForType {parts : Except RmuxError ResolvedParts} (h : Holds store.OnPane parts)
    (findType : TargetFindType) : Holds store.Designates (parts.map (targetForType findType)) :=
  h.map fun _ hpts => hpts.designates findType

theorem holds_currentTargetForType (flags : TargetFindFlags) (context : TargetFindContext) :
    Holds store.Designates (store.currentTargetForType findType flags context) := by
  rw [currentTargetForType]
  split
  · exact holds_targetForType (holds_partsForTarget _) findType
  · split
    · rename_i current hcur
      exact holds_ok ((holds_currentParts context current hcur).designates findType)
    · split_ifs
      · exact (holds_defaultSessionName flags).bind fun name _ =>
          holds_targetForType (holds_partsForSessionCurrent name) findType
      · exact holds_error _

theorem holds_targetForWindowCurrent {w : ResolvedParts} (h : store.OnWindow w) :
    Holds store.Designates (store.targetForWindowCurrent findType w) := by
  rw [targetForWindowCurrent]
  split_ifs with hp
  · exact holds_ok (h.designates hp)
  · exact holds_targetForType (holds_windowCurrentPane w) .pane

theorem holds_partsForWindow (name : SessionName) (windowIndex : ℕ) :
    Holds store.OnWindow (store.partsForWindow name windowIndex) := by
  rw [partsForWindow]
  refine (holds_expectSession _).bind fun session hsession => ?_
  split_ifs with hn
  · exact holds_error _
  · refine holds_ok ⟨session, hsession, ?_⟩
    exact mem_iff_isSome.mpr (ne_none_iff_isSome.mp fun h => hn (isNone_iff_eq_none.mpr h))

/-! ### Windows -/

section Windows

variable {flags : TargetFindFlags} {session : StoredSession}

theorem holds_resolveNamedWindow (raw v : Text) :
    Holds store.OnWindow (store.resolveNamedWindow raw session v flags) := by
  rw [resolveNamedWindow]
  refine (holds_true _).bind fun r _ => ?_
  cases r with
  | some windowIndex => exact holds_partsForWindow _ _
  | none =>
    split_ifs
    · exact holds_error _
    · refine (holds_true _).bind fun r _ => ?_
      cases r with
      | some windowIndex => exact holds_partsForWindow _ _
      | none =>
        refine (holds_true _).bind fun r _ => ?_
        cases r with
        | some windowIndex => exact holds_partsForWindow _ _
        | none => exact holds_error _

theorem mem_windows_of_windowIndexForId {session : Session} {windowId : WindowId} {windowIndex : ℕ}
    (h : session.windowIndexForId windowId = some windowIndex) : windowIndex ∈ session.windows := by
  obtain ⟨e, he, rfl⟩ := map_eq_some_iff.mp h
  exact mem_keys.mp (mem_map_of_mem (mem_of_find?_eq_some he))

theorem holds_resolveWindowId (raw v : Text) (context : TargetFindContext) :
    Holds store.OnWindow (store.resolveWindowId raw v context) := by
  rw [resolveWindowId]
  split_ifs
  · exact holds_error _
  · refine (holds_true _).bind fun id _ => ?_
    dsimp only
    split
    · rename_i window hwindow
      simp only [bind_eq_bind, bind_eq_some_iff, some.injEq] at hwindow
      obtain ⟨current, -, session, hsession, windowIndex, hidx, rfl⟩ := hwindow
      exact holds_ok ⟨session, hsession, mem_windows_of_windowIndexForId hidx⟩
    · refine (holds_uniqueMatch _ _ _).bind fun r hr => ?_
      cases r with
      | none => exact holds_error _
      | some window =>
        obtain ⟨e, he, hmem⟩ := mem_flatMap.mp (hr window rfl)
        obtain ⟨w, hw, rfl⟩ := mem_map.mp hmem
        exact holds_ok ⟨e.2, mem_iter.mp he, mem_keys.mp (mem_map_of_mem (mem_of_mem_filter hw))⟩

theorem holds_resolveSessionInstead (v : Text) (error : RmuxError) :
    Holds store.OnWindow (store.resolveSessionInstead v flags error) := by
  rw [resolveSessionInstead]
  split
  · exact fun parts h => (holds_partsForSessionCurrent _ parts h).onWindow
  · exact holds_error _

section

variable (hflags : flags.contains .windowIndex = false)
include hflags

theorem holds_resolveRelativeWindow {name : SessionName}
    (hsession : store.session name = some session) (v : Text) :
    Holds (fun r => ∀ w, r = some w → store.OnWindow w)
      (store.resolveRelativeWindow session v flags) := by
  have hnm := sessionName_of_session hsession
  simp only [resolveRelativeWindow, hflags, Bool.false_eq_true, if_false]
  split_ifs
  · exact holds_ok nofun
  · refine (holds_true _).bind fun offset _ => ?_
    cases offset with
    | some offset =>
      dsimp only
      cases hoff : session.cyclicWindowOffset offset with
      | none => exact holds_error _
      | some windowIndex =>
        refine holds_ok fun w hw => ?_
        cases hw
        have hmem := mem_keys.mp (mem_of_cyclicOffset hoff)
        exact ⟨session, hnm ▸ hsession, hmem⟩
    | none =>
      cases session.specialWindowIndex v with
      | none => exact holds_ok nofun
      | some windowIndex =>
        exact (holds_partsForWindow _ _).map fun parts hpts w hw =>
          some.inj hw ▸ hpts

theorem holds_resolveNumberedWindow (v : Text) : Holds (fun r => ∀ w, r = some w → store.OnWindow w)
      (store.resolveNumberedWindow session v flags) := by
  simp only [resolveNumberedWindow, hflags, Bool.false_eq_true, if_false]
  by_cases hsign : v.head? = some '+' ∨ v.head? = some '-'
  · rw [if_pos hsign]
    exact holds_ok nofun
  · rw [if_neg hsign]
    cases parseUnsigned u32Max v with
    | none => exact holds_ok nofun
    | some windowIndex =>
      dsimp only
      split_ifs
      · exact (holds_partsForWindow _ _).map fun parts hpts w hw =>
          some.inj hw ▸ hpts
      · exact holds_ok nofun

theorem holds_resolveWindowInSession (raw : Text) (name : SessionName) (v : Text) :
    Holds store.OnWindow (store.resolveWindowInSession raw name v flags) := by
  simp only [resolveWindowInSession, hflags, Bool.false_eq_true, if_false]
  refine (holds_expectSession _).bind fun session hsession => ?_
  split_ifs
  · exact holds_error _
  · refine (holds_true _).bind fun id _ => ?_
    cases session.windowIndexForId id with
    | none => exact holds_error _
    | some windowIndex => exact holds_partsForWindow _ _
  · refine (holds_resolveRelativeWindow hflags hsession v).bind fun r hr => ?_
    cases r with
    | some w => exact holds_ok (hr w rfl)
    | none =>
      refine (holds_resolveNumberedWindow hflags v).bind fun r hr => ?_
      cases r with
      | some w => exact holds_ok (hr w rfl)
      | none => exact holds_resolveNamedWindow raw v

theorem holds_resolveWindowGlobally (raw v : Text) :
    Holds store.OnWindow (store.resolveWindowGlobally raw v flags) := by
  rw [resolveWindowGlobally]
  refine (holds_uniqueMatch _ _ _).bind fun r hr => ?_
  cases r with
  | none => exact holds_error _
  | some w =>
    obtain ⟨e, -, he⟩ := mem_filterMap.mp (hr w rfl)
    exact holds_ok (holds_resolveWindowInSession hflags raw e.1 v w (toOption_eq_some_iff.mp he))

theorem holds_resolveWindowFromContext (raw v : Text) (onlyWindow : Bool)
    (context : TargetFindContext) :
    Holds store.OnWindow (store.resolveWindowFromContext raw v onlyWindow flags context) := by
  rw [resolveWindowFromContext]
  split
  · exact holds_resolveWindowId raw v context
  · cases store.currentParts context with
    | ok current =>
      dsimp only
      split
      · rename_i window hw
        exact holds_ok (holds_resolveWindowInSession hflags _ _ _ window hw)
      · split_ifs
        · exact holds_error _
        · exact holds_resolveSessionInstead v _
    | error error =>
      dsimp only
      split_ifs
      · exact holds_resolveWindowGlobally hflags raw v
      · split
        · rename_i window hw
          exact holds_ok (holds_resolveWindowGlobally hflags _ _ window hw)
        · exact (holds_resolveSessionInstead v _).mapError

end

end Windows

/-! ### Panes -/

theorem holds_paneIndexInWindow {w : Window} (h : w.Selected) (v : Text) (paneBaseIndex : ℕ) :
    Holds (fun r => ∀ i, r = some i → (w.pane i).isSome)
      (paneIndexInWindow w v paneBaseIndex) := by
  rw [paneIndexInWindow]
  split
  · refine (holds_true _).bind fun id _ => ?_
    cases hfind : w.panes.find? fun pane => pane.id = id with
    | none => exact holds_error _
    | some pane =>
      refine holds_ok fun i heq => ?_
      cases heq
      exact pane_isSome_of_mem (mem_of_find?_eq_some hfind)
  split
  · cases hl : w.lastPane with
    | none => exact holds_error _
    | some i =>
      refine holds_ok fun i' heq => ?_
      cases heq
      exact (h.last i hl).1
  cases hdir : w.directionalPane v with
  | some i =>
    refine holds_ok fun i' heq => ?_
    cases heq
    rw [directionalPane] at hdir
    split_ifs at hdir
    all_goals exact pane_of_findNeighbor hdir
  | none =>
    refine (holds_true _).bind fun offset _ => ?_
    cases offset with
    | some offset =>
      dsimp only
      cases hoff : w.cyclicPaneOffset offset with
      | none => exact holds_error _
      | some i =>
        refine holds_ok fun i' heq => ?_
        cases heq
        obtain ⟨pane, hp, rfl⟩ := mem_map.mp (mem_of_cyclicOffset hoff)
        exact pane_isSome_of_mem hp
    | none =>
      dsimp only
      split
      · rename_i i hvisible
        refine holds_ok fun i' heq => ?_
        cases heq
        obtain ⟨visible, -, hs⟩ := bind_eq_some_iff.mp hvisible
        split_ifs at hs with hbase hz
        · cases hs
          exact hbase.2
        · cases hs
          exact hz.2
      · exact holds_ok fun i hp => pane_of_paneDescription hp

theorem holds_resolvePaneInWindow (h : store.WellFormed) (raw : Text) (name : SessionName)
    (windowIndex : ℕ) (v : Text) (context : TargetFindContext) :
    Holds store.OnPane (store.resolvePaneInWindow raw name windowIndex v context) := by
  rw [resolvePaneInWindow]
  refine (holds_expectSession _).bind fun session hsession => ?_
  cases hw : session.windowAt windowIndex with
  | none => exact holds_error _
  | some w =>
    have hsel := (h.selected name session hsession).windows windowIndex w hw
    refine (holds_paneIndexInWindow hsel v _).bind fun r hr => ?_
    cases r with
    | none => exact holds_error _
    | some i => exact holds_ok ⟨session, w, hsession, hw, hr i rfl⟩

theorem holds_resolvePaneInSession (h : store.WellFormed) (raw : Text) (name : SessionName)
    (v : Text) (context : TargetFindContext) :
    Holds store.OnPane (store.resolvePaneInSession raw name v context) := by
  rw [resolvePaneInSession]
  split
  · refine (holds_true _).bind fun id _ => ?_
    refine (holds_expectSession _).bind fun session hsession => ?_
    cases hfind : session.findPaneIdInSession id with
    | none => exact holds_error _
    | some found =>
      obtain ⟨e, he, hmap⟩ := exists_of_findSome?_eq_some hfind
      obtain ⟨pane, hp, rfl⟩ := map_eq_some_iff.mp hmap
      exact holds_ok ⟨session, e.2, hsession, get?_eq_some_iff.mpr he,
        pane_isSome_of_mem (mem_of_find?_eq_some hp)⟩
  · exact (holds_expectSession _).bind fun session _ =>
      holds_resolvePaneInWindow h raw name _ v context

theorem holds_resolvePaneId (raw v : Text) (context : TargetFindContext) :
    Holds store.OnPane (store.resolvePaneId raw v context) := by
  rw [resolvePaneId]
  refine (holds_true _).bind fun id _ => ?_
  dsimp only
  split
  · rename_i parts hhere
    simp only [bind_eq_bind, bind_eq_some_iff] at hhere
    obtain ⟨current, hcur, session, -, window, -, pane, -, hid⟩ := hhere
    split_ifs at hid
    cases hid
    exact holds_ok (holds_currentParts context parts (toOption_eq_some_iff.mp hcur))
  · refine (holds_uniqueMatch _ _ _).bind fun r hr => ?_
    cases r with
    | none => exact holds_error _
    | some parts =>
      obtain ⟨e, he, hmem⟩ := mem_flatMap.mp (hr parts rfl)
      obtain ⟨w, hw, hmem⟩ := mem_flatMap.mp hmem
      obtain ⟨pane, hp, rfl⟩ := mem_map.mp hmem
      exact holds_ok ⟨e.2, w.2, mem_iter.mp he, get?_eq_some_iff.mpr hw,
        pane_isSome_of_mem (mem_of_mem_filter hp)⟩

theorem holds_resolvePaneFromContext (h : store.WellFormed) (raw v : Text) (onlyPane : Bool)
    (flags : TargetFindFlags) (context : TargetFindContext) :
    Holds store.OnPane (store.resolvePaneFromContext raw v onlyPane flags context) := by
  rw [resolvePaneFromContext]
  split
  · exact holds_resolvePaneId raw v context
  · cases store.currentParts context with
    | ok current =>
      dsimp only
      split
      · rename_i pane hp
        exact holds_ok (holds_resolvePaneInWindow h _ _ _ _ _ pane hp)
      · split_ifs
        · exact holds_error _
        · split
          · exact holds_windowCurrentPane _
          · exact holds_error _
    | error error =>
      split_ifs
      · exact holds_error _
      · rw [resolveWindowInstead]
        exact ((holds_true _).bind fun w _ => holds_windowCurrentPane w).mapError

/-! ### Targets -/

theorem holds_resolveParts (h : store.WellFormed) {flags : TargetFindFlags}
    (hflags : flags.contains .windowIndex = false) (raw : Text) (parts : TargetParts)
    (findType : TargetFindType) (context : TargetFindContext) :
    Holds store.Designates (store.resolveParts raw parts findType flags context) := by
  have hps : ∀ (w : ResolvedParts) pane, Holds store.Designates
      ((store.resolvePaneInWindow raw w.sessionName w.windowIndex pane context).map
        (targetForType findType)) := fun w pane =>
    holds_targetForType (holds_resolvePaneInWindow h _ _ _ _ _) findType
  rw [resolveParts]
  split
  · exact (holds_true _).bind fun name _ =>
      holds_targetForType (holds_partsForSessionCurrent name) findType
  · refine (holds_true _).bind fun name _ => ?_
    refine (holds_resolveWindowInSession hflags _ _ _).bind fun w hw => ?_
    split
    · exact hps w _
    · exact holds_targetForWindowCurrent findType hw
  · exact (holds_true _).bind fun name _ =>
      holds_targetForType (holds_resolvePaneInSession h _ _ _ _) findType
  · refine (holds_resolveWindowFromContext hflags _ _ _ _).bind fun w hw => ?_
    split
    · exact hps w _
    · exact holds_targetForWindowCurrent findType hw
  · exact holds_targetForType (holds_resolvePaneFromContext h _ _ _ _ _) findType
  · exact holds_currentTargetForType findType flags context

/-- Without the flag for free slots only what exists is found. -/
theorem designates_of_resolve (h : store.WellFormed) {flags : TargetFindFlags}
    (hflags : flags.contains .windowIndex = false) (t : Option Text)
    (findType : TargetFindType) (context : TargetFindContext) :
    Holds store.Designates (store.resolveUnresolvedTarget t findType flags context) := by
  cases t with
  | none => exact holds_currentTargetForType findType flags context
  | some raw =>
    rw [resolveUnresolvedTarget]
    have hflags' := (TargetParts.parse raw findType).applyExactPrefixes_contains_windowIndex flags
    rw [hflags] at hflags'
    simp only [hflags', Bool.false_eq_true, false_and, if_false]
    split_ifs
    · exact holds_currentTargetForType findType flags context
    · rw [mouseTargetForType]
      cases context.mouseTarget with
      | none => exact holds_error _
      | some t => exact holds_targetForType (holds_partsForTarget t) findType
    · rw [markedTargetForType]
      cases context.markedTarget with
      | none => exact holds_error _
      | some t => exact holds_targetForType (holds_partsForTarget t) findType
    · exact holds_resolveParts h hflags' _ _ _ _

end SessionStore

/-! ## Names -/

theorem octalByte_chars (n : ℕ) : '\\' ∈ octalByte n ∧ ':' ∉ octalByte n ∧ '.' ∉ octalByte n := by
  have hd : ∀ k < 8, digitChar k ≠ ':' ∧ digitChar k ≠ '.' := by decide
  have h₁ := hd (n / 64 % 8) (mod_lt _ (by omega))
  have h₂ := hd (n / 8 % 8) (mod_lt _ (by omega))
  have h₃ := hd (n % 8) (mod_lt _ (by omega))
  refine ⟨mem_cons_self, ?_, ?_⟩
  · simp [octalByte, Ne.symm h₁.1, Ne.symm h₂.1, Ne.symm h₃.1]
  · simp [octalByte, Ne.symm h₁.2, Ne.symm h₂.2, Ne.symm h₃.2]

/-- A character stands for itself, or is escaped with a backslash. Neither gives a `:` or a `.`. -/
def StandsFor (c : Char) (text : Text) : Prop :=
  (text = [c] ∨ '\\' ∈ text) ∧ ':' ∉ text ∧ '.' ∉ text

theorem StandsFor.ite {c : Char} {p : Prop} [Decidable p] {a b : Text} (ha : StandsFor c a)
    (hb : StandsFor c b) : StandsFor c (if p then a else b) := by
  split_ifs
  · exact ha
  · exact hb

theorem standsFor_octalByte (n : ℕ) : StandsFor c (octalByte n) :=
  ⟨.inr (octalByte_chars n).1, (octalByte_chars n).2⟩

theorem standsFor_octalBytes :
    StandsFor c ((String.utf8EncodeChar c).flatMap fun byte => octalByte byte.toNat) := by
  refine ⟨.inr ?_, ?_, ?_⟩
  · have hne : String.utf8EncodeChar c ≠ [] := by
      rw [← length_pos_iff_ne_nil, String.length_utf8EncodeChar]
      exact c.utf8Size_pos
    obtain ⟨byte, hb⟩ := exists_mem_of_ne_nil _ hne
    exact mem_flatMap.mpr ⟨byte, hb, (octalByte_chars _).1⟩
  · intro hmem
    obtain ⟨byte, -, hmem⟩ := mem_flatMap.mp hmem
    exact (octalByte_chars _).2.1 hmem
  · intro hmem
    obtain ⟨byte, -, hmem⟩ := mem_flatMap.mp hmem
    exact (octalByte_chars _).2.2 hmem

theorem standsFor_pushSessionNameCharacter {c : Char} (hcol : c ≠ ':') (hdot : c ≠ '.') :
    StandsFor c (pushSessionNameCharacter true c) := by
  have hescape : ∀ d : Char, d ≠ ':' → d ≠ '.' → StandsFor c ['\\', d] := by
    intro d hcol hdot
    refine ⟨.inr mem_cons_self, ?_, ?_⟩
    · simp [Ne.symm hcol]
    · simp [Ne.symm hdot]
  have hself : StandsFor c [c] :=
    ⟨.inl rfl, by simpa using Ne.symm hcol, by simpa using Ne.symm hdot⟩
  rw [pushSessionNameCharacter]
  refine .ite ⟨.inr (by decide), by decide, by decide⟩ ?_
  iterate 8 refine .ite (hescape _ (by decide) (by decide)) ?_
  exact .ite (standsFor_octalByte c _) (.ite (standsFor_octalBytes c) hself)

/-- The character that is put for a `:` or a `.`. -/
theorem standsFor_rewritten :
    ∃ d, d ≠ ':' ∧ d ≠ '.' ∧ (if c = ':' ∨ c = '.' then '_' else c) = d := by
  refine ⟨_, ?_, ?_, rfl⟩
  · split_ifs with h
    · decide
    · exact fun hc => h (.inl hc)
  · split_ifs with h
    · decide
    · exact fun hc => h (.inr hc)

theorem sanitizeSessionName_cons (value : Text) : sanitizeSessionName (c :: value) =
      pushSessionNameCharacter true (if c = ':' ∨ c = '.' then '_' else c) ++
        sanitizeSessionName value := by
  simp only [sanitizeSessionName, sanitizeSessionNameWithBackslashPolicy, flatMap_cons]

/-- A name has no `:` and no `.`, and a name without backslashes is kept as it is. -/
theorem sanitizeSessionName_facts (v : Text) :
    ':' ∉ sanitizeSessionName v ∧ '.' ∉ sanitizeSessionName v ∧
      ('\\' ∉ sanitizeSessionName v →
        sanitizeSessionName (sanitizeSessionName v) = sanitizeSessionName v) ∧
      (v ≠ [] → sanitizeSessionName v ≠ []) := by
  induction v with
  | nil => exact ⟨by decide, by decide, fun _ => rfl, fun h => absurd rfl h⟩
  | cons c v ih =>
    obtain ⟨d, hcol, hdot, hd⟩ := standsFor_rewritten c
    obtain ⟨hpu, hpushColon, hpushDot⟩ := standsFor_pushSessionNameCharacter hcol hdot
    rw [sanitizeSessionName_cons, hd]
    refine ⟨?_, ?_, ?_, ?_⟩
    · exact fun h => (mem_append.mp h).elim hpushColon ih.1
    · exact fun h => (mem_append.mp h).elim hpushDot ih.2.1
    · intro hpl
      rcases hpu with hself | hslash
      · have hd' : (if d = ':' ∨ d = '.' then '_' else d) = d := if_neg (by simp [hcol, hdot])
        rw [hself]
        have hr := ih.2.2.1 fun h => hpl (mem_append_right _ h)
        rw [singleton_append, sanitizeSessionName_cons, hd', hself, hr, singleton_append]
      · exact absurd (mem_append_left _ hslash) hpl
    · intro _ hnil
      rcases hpu with hself | hslash
      · rw [hself] at hnil
        cases hnil
      · rw [(append_eq_nil_iff.mp hnil).1] at hslash
        cases hslash

/-- A name that `SessionName.new` gives, without backslashes. -/
theorem SessionName.new_text {v : Text} {name : SessionName}
    (h : SessionName.new v = some name) (hpl : '\\' ∉ name.text) :
    SessionName.new name.text = some name ∧ ':' ∉ name.text ∧ name.text ≠ [] ∧
      name.text ≠ ".".toList := by
  rw [SessionName.new] at h
  split_ifs at h with hemp
  cases h
  obtain ⟨hcol, hdot, hsm, hne⟩ := sanitizeSessionName_facts v
  refine ⟨?_, hcol, hne hemp, fun heq => hdot ?_⟩
  · rw [SessionName.new, if_neg (hne hemp), hsm hpl]
  · rw [show sanitizeSessionName v = ".".toList from heq]
    decide

/-! ## Reading a text back -/

/-- The text of a target, with `=` before it for an exact match. -/
def Target.text (target : Target) (exact : Bool) : Text :=
  if exact then '=' :: target.display else target.display

def Target.findType : Target → TargetFindType
  | .session _ => .session
  | .window _ => .window
  | .pane _ => .pane

def reservedNames : List Text :=
  ["{active}".toList, "{current}".toList, "{mouse}".toList,
    "{marked}".toList, "~".toList]

/-- The name of the session is not read as something else. A name after `=` can be anything but an id,
the name before a window must not start with `=`, and a name alone must not look like a window or pane
id or be a token. Names with backslashes are left out. -/
def Target.Readable (target : Target) (exact : Bool) : Prop :=
  '\\' ∉ target.sessionName.text ∧ target.sessionName.text.head? ≠ some '$' ∧
    (exact = false → target.sessionName.text.head? ≠ some '=' ∧
      (target.findType = .session → target.sessionName.text.head? ≠ some '@' ∧
        target.sessionName.text.head? ≠ some '%' ∧ target.sessionName.text ∉ reservedNames))

section Digits

variable {n : ℕ}

theorem toDigits_head?_ne {c : Char} (hc : c.isDigit = false) :
    (Nat.toDigits 10 n).head? ≠ some c := by
  intro h
  have := isDigit_of_mem_toDigits (by omega) (by omega) (mem_of_mem_head? h)
  rw [hc] at this
  cases this

theorem toDigits_ne_of_head? {text : Text} {c : Char} (hc : c.isDigit = false)
    (h : text.head? = some c) : Nat.toDigits 10 n ≠ text :=
  fun heq => toDigits_head?_ne hc (heq ▸ h)

theorem not_mem_toDigits {c : Char} (hc : c.isDigit = false) : c ∉ Nat.toDigits 10 n := by
  intro h
  have := isDigit_of_mem_toDigits (by omega) (by omega) h
  rw [hc] at this
  cases this

theorem mapWindowToken_toDigits :
    TargetParts.mapWindowToken (Nat.toDigits 10 n) = Nat.toDigits 10 n := by
  have hne : ∀ {text : Text}, text.head? = some '\x7b' → toDigits 10 n ≠ text :=
    fun h => toDigits_ne_of_head? (by decide) h
  rw [TargetParts.mapWindowToken]
  iterate 5 rw [if_neg (hne (by decide))]

theorem mapPaneToken_toDigits :
    TargetParts.mapPaneToken (Nat.toDigits 10 n) = Nat.toDigits 10 n := by
  have hne : ∀ {text : Text}, text.head? = some '\x7b' → toDigits 10 n ≠ text :=
    fun h => toDigits_ne_of_head? (by decide) h
  rw [TargetParts.mapPaneToken]
  iterate 11 rw [if_neg (hne (by decide))]

theorem parseOffset_toDigits : parseOffset (Nat.toDigits 10 n) = .ok none := by
  have hplus := @toDigits_head?_ne n '+' (by decide)
  have hminus := @toDigits_head?_ne n '-' (by decide)
  cases h : toDigits 10 n with
  | nil => rfl
  | cons c r =>
    rw [h] at hplus hminus
    have hsign : c ≠ '+' ∧ c ≠ '-' :=
      ⟨fun hc => hplus (by rw [hc]; rfl), fun hc => hminus (by rw [hc]; rfl)⟩
    rw [parseOffset, if_pos hsign]

theorem stripExact_of_head? {text : Text} (h : text.head? ≠ some '=') :
    TargetParts.stripExact (some text) = none := by
  rw [TargetParts.stripExact.eq_def]
  split
  · rename_i rest heq
    cases heq
    exact absurd rfl h
  · rfl

end Digits

namespace SessionStore

variable {store : SessionStore} {name : SessionName} {session : StoredSession} {windowIndex : ℕ}
  {raw : Text}

theorem windowAt_isSome (hw : windowIndex ∈ session.windows) :
    (session.windowAt windowIndex).isSome := hw

theorem resolveAbsoluteWindowIndexSlot_toDigits {n : ℕ} (h : n ≤ u32Max) :
    resolveAbsoluteWindowIndexSlot (Nat.toDigits 10 n) = .ok (some n) := by
  have hno : ¬(toDigits 10 n = [] ∨ (toDigits 10 n).head? = some '+' ∨
      (toDigits 10 n).head? = some '-' ∨ toDigits 10 n = "!".toList ∨
      toDigits 10 n = "^".toList ∨ toDigits 10 n = "$".toList) := by
    simp only [not_or]
    exact ⟨toDigits_ne_nil, toDigits_head?_ne (by decide), toDigits_head?_ne (by decide),
      @toDigits_ne_of_head? n _ '!' (by decide) (by decide),
      @toDigits_ne_of_head? n _ '^' (by decide) (by decide),
      @toDigits_ne_of_head? n _ '$' (by decide) (by decide)⟩
  rw [resolveAbsoluteWindowIndexSlot, if_neg hno, parseUnsigned_toDigits h]

theorem resolveRelativeWindow_toDigits (n : ℕ) (flags : TargetFindFlags) :
    store.resolveRelativeWindow session (Nat.toDigits 10 n) flags = .ok none := by
  have hspec : session.specialWindowIndex (toDigits 10 n) = none := by
    rw [Session.specialWindowIndex,
      if_neg (@toDigits_ne_of_head? n _ '!' (by decide) (by decide)),
      if_neg (@toDigits_ne_of_head? n _ '^' (by decide) (by decide)),
      if_neg (@toDigits_ne_of_head? n _ '$' (by decide) (by decide))]
  rw [resolveRelativeWindow]
  split
  · rfl
  · rw [parseOffset_toDigits, ok_bind]
    simp only [hspec]

section

variable (hsession : store.session name = some session)
include hsession

theorem resolveSessionPart_text (hnew : SessionName.new name.text = some name)
    (hid : name.text.head? ≠ some '$') (flags : TargetFindFlags) :
    store.resolveSessionPart name.text flags = .ok name := by
  rw [resolveSessionPart, parsePrefixedId, if_neg hid, ok_bind]
  simp only [hnew, bind_some, hsession, sessionName_of_session hsession]

theorem expectSession_eq : store.expectSession name = .ok session := by
  rw [expectSession, hsession]

theorem partsForWindow_eq (hw : windowIndex ∈ session.windows) :
    store.partsForWindow name windowIndex = .ok (.window name windowIndex) := by
  have hs : ¬(session.windowAt windowIndex).isNone := by
    rw [isNone_iff_eq_none]
    exact ne_none_iff_isSome.mpr (windowAt_isSome hw)
  rw [partsForWindow, expectSession_eq hsession, ok_bind, if_neg hs]

theorem resolveNumberedWindow_toDigits (hw : windowIndex ∈ session.windows)
    (hle : windowIndex ≤ u32Max) (flags : TargetFindFlags) :
    store.resolveNumberedWindow session (Nat.toDigits 10 windowIndex) flags =
      .ok (some (.window name windowIndex)) := by
  have hsign : ¬((toDigits 10 windowIndex).head? = some '+' ∨
      (toDigits 10 windowIndex).head? = some '-') :=
    fun h => h.elim (toDigits_head?_ne (by decide)) (toDigits_head?_ne (by decide))
  rw [resolveNumberedWindow, if_neg hsign, parseUnsigned_toDigits hle]
  dsimp only
  rw [if_pos (windowAt_isSome hw), sessionName_of_session hsession, partsForWindow_eq hsession hw]
  rfl

/-- The number of a window is read back. -/
theorem resolveWindowInSession_toDigits (hw : windowIndex ∈ session.windows) (raw : Text)
    (flags : TargetFindFlags) :
    store.resolveWindowInSession raw name (Nat.toDigits 10 windowIndex) flags =
      .ok (.window name windowIndex) := by
  have hle := store.windowIndex_le name session hsession windowIndex hw
  rw [resolveWindowInSession, expectSession_eq hsession, ok_bind,
    if_neg (toDigits_head?_ne (by decide)), resolveAbsoluteWindowIndexSlot_toDigits hle]
  split
  · rfl
  · rw [ok_bind]
    rw [resolveRelativeWindow_toDigits, ok_bind]
    rw [resolveNumberedWindow_toDigits hsession hw hle, ok_bind]

theorem partsForSessionCurrent_eq (h : store.WellFormed) :
    ∃ parts, store.partsForSessionCurrent name = .ok parts ∧ parts.sessionName = name := by
  have hsel := h.selected name session hsession
  obtain ⟨w, hw⟩ := mem_iff.mp hsel.active
  obtain ⟨pane, hp⟩ := isSome_iff_exists.mp (hsel.windows session.activeWindow w hw).active
  have hact : (session.windowAt session.activeWindow).bind activePane? = some pane := by
    rw [Session.windowAt, hw]
    exact hp
  refine ⟨.pane name session.activeWindow pane.index, ?_, rfl⟩
  rw [partsForSessionCurrent, expectSession_eq hsession, ok_bind]
  simp only [hact]

end

theorem directionalPane_toDigits (w : Window) (n : ℕ) :
    w.directionalPane (Nat.toDigits 10 n) = none := by
  have hne : ∀ {text : Text}, text.head? = some '\x7b' → toDigits 10 n ≠ text :=
    fun h => toDigits_ne_of_head? (by decide) h
  rw [directionalPane]
  iterate 4 rw [if_neg (hne (by decide))]

/-- The number of a pane is read back if panes are counted from 0. -/
theorem paneIndexInWindow_toDigits {w : Window} {i : ℕ}
    (hp : (w.pane i).isSome) (hle : i ≤ u32Max) :
    paneIndexInWindow w (Nat.toDigits 10 i) 0 = .ok (some i) := by
  have hl : toDigits 10 i ≠ "!".toList :=
    @toDigits_ne_of_head? i _ '!' (by decide) (by decide)
  rw [paneIndexInWindow, if_neg (toDigits_head?_ne (by decide)), if_neg hl,
    directionalPane_toDigits, parseOffset_toDigits, ok_bind, parseUnsigned_toDigits hle]
  simp only [bind_some, zero_le, Nat.sub_zero, hp, and_self, if_true]

theorem resolvePaneInWindow_toDigits {context : TargetFindContext}
    (hbase : ∀ name windowIndex, context.paneBaseIndex name windowIndex = 0) {i : ℕ}
    (h : store.HasPane name windowIndex i) (raw : Text) :
    store.resolvePaneInWindow raw name windowIndex (Nat.toDigits 10 i) context =
      .ok (.pane name windowIndex i) := by
  obtain ⟨session, w, hsession, hw, hp⟩ := h
  obtain ⟨pane, hmem, rfl⟩ := pane_isSome_iff.mp hp
  have hle := store.paneIndex_le name session hsession windowIndex w hw pane hmem
  rw [resolvePaneInWindow, expectSession_eq hsession, ok_bind, hw]
  dsimp only
  rw [hbase, paneIndexInWindow_toDigits hp hle, ok_bind]

/-! ### Parts -/

/-- The text of the session before `=` is taken off. -/
def sessionText (name : SessionName) (exact : Bool) : Text :=
  if exact then '=' :: name.text else name.text

def exactFlags (flags : TargetFindFlags) (exact : Bool) : TargetFindFlags :=
  if exact then flags.insert .exactSession else flags

theorem stripExact_sessionText {exact : Bool} (h : exact = false → name.text.head? ≠ some '=') :
    TargetParts.stripExact (some (sessionText name exact)) =
      if exact then some name.text else none := by
  cases exact with
  | true => rfl
  | false => exact stripExact_of_head? (h rfl)

/-- The `=` before a session is taken off, and a window has none. -/
theorem applyExactPrefixes_sessionText {exact : Bool}
    (h : exact = false → name.text.head? ≠ some '=') {w : Option Text}
    (hw : TargetParts.stripExact w = none) (pane : Option Text)
    (windowOnly paneOnly : Bool) (flags : TargetFindFlags) :
    (TargetParts.mk (some (sessionText name exact)) w pane windowOnly
      paneOnly).applyExactPrefixes flags =
      (⟨some name.text, w, pane, windowOnly, paneOnly⟩, exactFlags flags exact) := by
  rw [TargetParts.applyExactPrefixes, stripExact_sessionText h]
  cases exact with
  | true => simp only [if_true, hw, exactFlags]
  | false => simp only [Bool.false_eq_true, if_false, hw, exactFlags, sessionText]

/-- A text is no token. -/
def NoToken (raw : Text) : Prop :=
  isCurrentToken raw = false ∧ isMouseToken raw = false ∧ isMarkedToken raw = false

theorem noToken_iff :
    NoToken raw ↔ raw ≠ [] ∧ raw ≠ ".".toList ∧ raw ≠ "=".toList ∧ raw ∉ reservedNames := by
  simp only [NoToken, isCurrentToken, isMouseToken, isMarkedToken, reservedNames,
    Bool.or_eq_false_iff, decide_eq_false_iff_not, mem_cons, not_mem_nil, or_false, not_or]
  constructor
  · rintro ⟨⟨⟨⟨h₁, h₂⟩, h₃⟩, h₄⟩, ⟨h₅, h₆⟩, h₇, h₈⟩
    exact ⟨h₁, h₂, h₅, h₃, h₄, h₆, h₈, h₇⟩
  · rintro ⟨h₁, h₂, h₅, h₃, h₄, h₆, h₈, h₇⟩
    exact ⟨⟨⟨⟨h₁, h₂⟩, h₃⟩, h₄⟩, ⟨h₅, h₆⟩, h₇, h₈⟩

theorem noToken_of_colon (h : ':' ∈ raw) : NoToken raw := by
  have hne : ∀ {text : Text}, ':' ∉ text → raw ≠ text := fun hno heq => hno (heq ▸ h)
  refine noToken_iff.mpr ⟨hne (by decide), hne (by decide), hne (by decide), fun hmem => ?_⟩
  exact absurd h ((by decide : ∀ text ∈ reservedNames, ':' ∉ text) raw hmem)

theorem exactFlags_contains_windowIndex (flags : TargetFindFlags) (exact : Bool) :
    (exactFlags flags exact).contains .windowIndex = flags.contains .windowIndex := by
  cases exact with
  | true => exact flags.contains_insert (by decide)
  | false => rfl

/-- A text that is no token is read by its parts, without the `=` before the session. -/
theorem resolveUnresolvedTarget_parts (htok : NoToken raw) {findType : TargetFindType}
    {flags : TargetFindFlags} {exact windowOnly paneOnly : Bool} {w pane : Option Text}
    (hp : TargetParts.parse raw findType =
      ⟨some (sessionText name exact), w, pane, windowOnly, paneOnly⟩)
    (hpl : exact = false → name.text.head? ≠ some '=')
    (hstrip : TargetParts.stripExact w = none) (hw : w ≠ some [])
    (hpane : flags.contains .windowIndex → pane = none) (context : TargetFindContext) :
    store.resolveUnresolvedTarget (some raw) findType flags context =
      store.resolveParts raw
        (TargetParts.mk (some name.text) w pane windowOnly paneOnly).dropEmpty.mapTokens
        findType (exactFlags flags exact) context := by
  rw [← exactFlags_contains_windowIndex flags exact] at hpane
  rw [resolveUnresolvedTarget, htok.1, htok.2.1, htok.2.2, hp,
    applyExactPrefixes_sessionText hpl hstrip]
  have hsl : ¬((exactFlags flags exact).contains .windowIndex ∧ windowOnly ∧
      w = some [] ∧ pane = none) := fun h => hw h.2.2.1
  have hnopane : ¬((exactFlags flags exact).contains .windowIndex ∧
      (TargetParts.mk (some name.text) w pane windowOnly
        paneOnly).dropEmpty.mapTokens.pane.isSome) := by
    rintro ⟨hflag, hs⟩
    simp [TargetParts.mapTokens, TargetParts.dropEmpty, hpane hflag] at hs
  simp only [Bool.false_eq_true, if_false]
  rw [if_neg hsl, if_neg hnopane]

theorem colon_not_mem_sessionText (h : ':' ∉ name.text) (exact : Bool) :
    ':' ∉ sessionText name exact := by
  cases exact with
  | true => simpa [sessionText] using h
  | false => exact h

theorem filter_ne_nil {text : Text} (h : text ≠ []) :
    (some text).filter (fun t => decide (t ≠ [])) = some text := by
  simp [Option.filter, h]

section Display

variable {exact : Bool} {flags : TargetFindFlags} {context : TargetFindContext}

theorem resolve_session_text (h : store.WellFormed) (hsession : store.session name = some session)
    (hnew : SessionName.new name.text = some name) (hcol : ':' ∉ name.text)
    (hne : name.text ≠ [] ∧ name.text ≠ ".".toList) (hrd : (Target.session name).Readable exact) :
    store.resolveUnresolvedTarget (some (sessionText name exact)) .session flags context =
      .ok (.session name) := by
  obtain ⟨-, hid, hpl⟩ := hrd
  have htok : NoToken (sessionText name exact) := by
    cases exact with
    | true =>
      refine noToken_iff.mpr ⟨cons_ne_nil _ _, fun heq => ?_, fun heq => ?_, fun hmem => ?_⟩
      · exact absurd (cons.inj heq).1 (by decide)
      · exact hne.1 (cons.inj heq).2
      · exact absurd rfl ((by decide : ∀ text ∈ reservedNames, text.head? ≠ some '=') _ hmem)
    | false =>
      refine noToken_iff.mpr ⟨hne.1, hne.2, fun heq => ?_, ((hpl rfl).2 rfl).2.2⟩
      have hhd : name.text.head? = some '=' := by
        rw [show name.text = "=".toList from heq]
        rfl
      exact (hpl rfl).1 hhd
  have hp : TargetParts.parse (sessionText name exact) .session =
      ⟨some (sessionText name exact), none, none, false, false⟩ := by
    have hhd : ∀ c ∈ ['$', '@', '%'], (sessionText name exact).head? ≠ some c := by
      intro c hc
      cases exact with
      | true =>
        intro heq
        cases heq
        exact absurd hc (by decide)
      | false =>
        simp only [mem_cons, not_mem_nil, or_false] at hc
        rcases hc with rfl | rfl | rfl
        · exact hid
        · exact ((hpl rfl).2 rfl).1
        · exact ((hpl rfl).2 rfl).2.1
    rw [TargetParts.parse, splitOnce_eq_none (colon_not_mem_sessionText hcol exact)]
    rw [if_neg (hhd '$' (by simp)), if_neg (hhd '@' (by simp)), if_neg (hhd '%' (by simp))]
  rw [resolveUnresolvedTarget_parts htok hp (fun he => (hpl he).1) rfl (by simp) fun _ => rfl]
  obtain ⟨parts, hcur, hnm⟩ := partsForSessionCurrent_eq hsession h
  simp only [TargetParts.dropEmpty, TargetParts.mapTokens, filter_ne_nil hne.1, filter_none,
    map_none, resolveParts, resolveSessionPart_text hsession hnew hid, ok_bind,
    targetForSessionCurrent, hcur]
  exact congrArg (fun n => ok (Target.session n)) hnm

section Windows

variable (hnew : SessionName.new name.text = some name) (hcol : ':' ∉ name.text)
  (hne : name.text ≠ []) (hid : name.text.head? ≠ some '$')
  (hpl : exact = false → name.text.head? ≠ some '=') {windowIndex i : ℕ}

include hnew hcol hne hid hpl

theorem resolve_window_text (hsession : store.session name = some session)
    (hw : windowIndex ∈ session.windows) : store.resolveUnresolvedTarget
        (some (sessionText name exact ++ ':' :: Nat.toDigits 10 windowIndex)) .window flags context =
      .ok (.window ⟨name, windowIndex⟩) := by
  have hp : TargetParts.parse (sessionText name exact ++ ':' :: toDigits 10 windowIndex)
      .window = ⟨some (sessionText name exact), some (toDigits 10 windowIndex), none, true,
        false⟩ := by
    rw [TargetParts.parse, splitOnce_append (colon_not_mem_sessionText hcol exact)]
    dsimp only
    rw [splitOnce_eq_none (not_mem_toDigits (by decide))]
  rw [resolveUnresolvedTarget_parts (noToken_of_colon (by simp)) hp hpl
    (stripExact_of_head? (toDigits_head?_ne (by decide)))
    (fun heq => toDigits_ne_nil (some.inj heq)) fun _ => rfl]
  simp only [TargetParts.dropEmpty, TargetParts.mapTokens, filter_ne_nil hne,
    filter_ne_nil toDigits_ne_nil, filter_none, map_none, map_some,
    mapWindowToken_toDigits, resolveParts, resolveSessionPart_text hsession hnew hid, ok_bind,
    resolveWindowInSession_toDigits hsession hw]
  rfl

theorem resolve_pane_text (hbase : ∀ name windowIndex, context.paneBaseIndex name windowIndex = 0)
    (hflags : flags.contains .windowIndex = false) (hpane : store.HasPane name windowIndex i) :
    store.resolveUnresolvedTarget (some (sessionText name exact ++
        ':' :: (Nat.toDigits 10 windowIndex ++ '.' :: Nat.toDigits 10 i)))
        .pane flags context = .ok (.pane ⟨name, windowIndex, i⟩) := by
  obtain ⟨session, w, hsession, hat, -⟩ := id hpane
  have hw : windowIndex ∈ session.windows := mem_of_get? hat
  have hp : TargetParts.parse (sessionText name exact ++
      ':' :: (toDigits 10 windowIndex ++ '.' :: toDigits 10 i)) .pane =
        ⟨some (sessionText name exact), some (toDigits 10 windowIndex),
          some (toDigits 10 i), true, true⟩ := by
    rw [TargetParts.parse, splitOnce_append (colon_not_mem_sessionText hcol exact)]
    dsimp only
    rw [splitOnce_append (not_mem_toDigits (by decide))]
  rw [resolveUnresolvedTarget_parts (noToken_of_colon (by simp)) hp hpl
    (stripExact_of_head? (toDigits_head?_ne (by decide)))
    (fun heq => toDigits_ne_nil (some.inj heq)) fun h => by rw [hflags] at h; cases h]
  simp only [TargetParts.dropEmpty, TargetParts.mapTokens, filter_ne_nil hne,
    filter_ne_nil toDigits_ne_nil, map_some, mapWindowToken_toDigits,
    mapPaneToken_toDigits, resolveParts, resolveSessionPart_text hsession hnew hid, ok_bind,
    resolveWindowInSession_toDigits hsession hw]
  rw [ResolvedParts.window, resolvePaneInWindow_toDigits hbase hpane]
  rfl

end Windows

/-- The text of a target is read back as the target. -/
theorem resolve_display (h : store.WellFormed)
    (hbase : ∀ name windowIndex, context.paneBaseIndex name windowIndex = 0) {target : Target}
    (hthere : store.Designates target) (hnm : ∃ v, SessionName.new v = some target.sessionName)
    (hrd : target.Readable exact)
    (hflags : target.findType = .pane → flags.contains .windowIndex = false) :
    store.resolveUnresolvedTarget (some (target.text exact)) target.findType flags context =
      .ok target := by
  obtain ⟨v, hval⟩ := hnm
  obtain ⟨hnew, hcol, hne, hdot⟩ := SessionName.new_text hval hrd.1
  cases target with
  | session name =>
    obtain ⟨session, hsession⟩ := isSome_iff_exists.mp hthere
    have htext : (Target.session name).text exact = sessionText name exact := rfl
    rw [htext]
    exact resolve_session_text h hsession hnew hcol ⟨hne, hdot⟩ hrd
  | window target =>
    obtain ⟨session, hsession, hw⟩ := hthere
    have htext : (Target.window target).text exact =
        sessionText target.sessionName exact ++ ':' :: toDigits 10 target.windowIndex := by
      cases exact <;> rfl
    rw [htext]
    exact resolve_window_text hnew hcol hne hrd.2.1 (fun he => (hrd.2.2 he).1) hsession hw
  | pane target =>
    have htext : (Target.pane target).text exact = sessionText target.sessionName exact ++
        ':' :: (toDigits 10 target.windowIndex ++ '.' :: toDigits 10 target.paneIndex) := by
      cases exact <;> rfl
    rw [htext]
    exact resolve_pane_text hnew hcol hne hrd.2.1 (fun he => (hrd.2.2 he).1) hbase (hflags rfl)
      hthere

end Display

/-- Without the flag for free slots only what exists is found, and the text of a target with a readable
name is read back as the target in every context. -/
theorem resolve_means (h : store.WellFormed) (context : TargetFindContext)
    (hbase : ∀ name windowIndex, context.paneBaseIndex name windowIndex = 0) :
    (∀ text findType flags target, flags.contains .windowIndex = false →
      store.resolveUnresolvedTarget text findType flags context = .ok target →
        store.Designates target) ∧
    ∀ target exact flags, store.Designates target →
      (∃ value, SessionName.new value = some target.sessionName) → target.Readable exact →
      (target.findType = .pane → flags.contains .windowIndex = false) →
        store.resolveUnresolvedTarget (some (target.text exact)) target.findType flags context =
          .ok target :=
  ⟨fun text findType _ target hflags => designates_of_resolve h hflags text findType context target,
    fun _ _ _ hthere hname hread hflags => resolve_display h hbase hthere hname hread hflags⟩

/-! ## Sessions of one pane -/

/-- The window of the `k`th session. -/
def oneWindow (k : Fin 2) : Window :=
  .newWithInitialPane ⟨80, 24⟩ (UInt32.ofNat (k + 1)) (UInt32.ofNat (k + 1))

/-- The `k`th session, with one window. -/
def oneSession (name : String) (k : Fin 2) : StoredSession :=
  { Session.newWithInitialWindow name ⟨80, 24⟩ 0 (UInt32.ofNat (k + 1)) (UInt32.ofNat (k + 1)) with
    id := UInt32.ofNat k
    recency := 0
    lastAttachedAt := none }

theorem windowAt_oneSession {name : String} {k : Fin 2} {i : ℕ} {w : Window}
    (h : (oneSession name k).windowAt i = some w) : i = 0 ∧ w = oneWindow k := by
  rw [Session.windowAt, show (oneSession name k).windows = .singleton 0 (oneWindow k) from rfl,
    get?_singleton] at h
  split_ifs at h with hidx
  exact ⟨hidx, (some.inj h).symm⟩

/-- Every session has one window, and its name for a key. -/
def Sole (sessions : AList fun _ : SessionName => StoredSession) : Prop :=
  ∀ key session, sessions.lookup key = some session →
    ∃ name k, key = ⟨String.toList name⟩ ∧ session = oneSession name k

/-- A store of sessions of one pane. -/
def storeOf (sessions : AList fun _ : SessionName => StoredSession) (hsole : Sole sessions) :
    SessionStore where
  sessions
  named := by
    intro key session h
    obtain ⟨name, k, rfl, rfl⟩ := hsole key session h
    rfl
  windowIndex_le := by
    intro key session h index hindex
    obtain ⟨name, k, rfl, rfl⟩ := hsole key session h
    obtain ⟨window, hwindow⟩ := OrderedMap.mem_iff.mp hindex
    rw [(windowAt_oneSession hwindow).1]
    exact Nat.zero_le _
  paneIndex_le := by
    intro key session h index window hwindow pane hpane
    obtain ⟨name, k, rfl, rfl⟩ := hsole key session h
    rw [(windowAt_oneSession hwindow).2] at hpane
    exact (by decide : ∀ k, ∀ pane ∈ (oneWindow k).panes, pane.index ≤ u32Max) k pane hpane

theorem selected_oneWindow (k : Fin 2) : (oneWindow k).Selected := by
  refine ⟨by decide +revert, fun i hidx => ?_, by decide +revert, by decide +revert⟩
  cases hidx

theorem selected_oneSession (name : String) (k : Fin 2) : (oneSession name k).Selected := by
  refine ⟨by simp [oneSession, Session.newWithInitialWindow, OrderedMap.singleton], ?_, ?_, rfl, ?_⟩
  · exact OrderedMap.mem_singleton.mpr rfl
  · intro i hidx
    cases hidx
  · intro i w hw
    rw [(windowAt_oneSession hw).2]
    exact selected_oneWindow k

theorem sole_insert {sessions : AList fun _ : SessionName => StoredSession} (h : Sole sessions)
    (name : String) (k : Fin 2) : Sole (sessions.insert ⟨name.toList⟩ (oneSession name k)) := by
  intro key session hlookup
  by_cases hkey : key = ⟨name.toList⟩
  · rw [hkey, AList.lookup_insert] at hlookup
    exact ⟨name, k, hkey, (some.inj hlookup).symm⟩
  · rw [AList.lookup_insert_ne hkey] at hlookup
    exact h key session hlookup

/-- A store with one session of one pane. -/
def single (name : String) : SessionStore := storeOf _ (@sole_insert ∅ nofun name 0)

/-- A store with two sessions of one pane. -/
def pair (name name' : String) : SessionStore :=
  storeOf _ (sole_insert (@sole_insert ∅ nofun name 0) name' 1)

theorem selected_storeOf {sessions : AList fun _ : SessionName => StoredSession}
    (hsole : Sole sessions) (name : SessionName) (session : StoredSession)
    (h : (storeOf sessions hsole).session name = some session) : session.Selected := by
  obtain ⟨name, k, -, rfl⟩ := hsole name session h
  exact selected_oneSession name k

def emptyContext : TargetFindContext := ⟨none, .allowDefaultSession, none, none, ∅⟩

/-- A session called `=work` is there, but its name is read as an exact match of `work`. -/
theorem resolve_leading_equals :
    (single "=work").WellFormed ∧ SessionName.new "=work".toList = some ⟨"=work".toList⟩ ∧
      (single "=work").Designates (.session ⟨"=work".toList⟩) ∧
      (single "=work").resolveUnresolvedTarget (some (Target.session ⟨"=work".toList⟩).display)
        .session .none emptyContext = .error (.invalidTarget "work" "can't find session: work") := by
  refine ⟨⟨selected_storeOf _, by decide, by decide, by decide⟩, by decide, ?_, by decide +kernel⟩
  show ((single "=work").session _).isSome = true
  decide

/-- `=work:0.0` is the pane of a session called `work`, where there also is a session
`workshop`. -/
theorem resolve_means_work :
    (pair "workshop" "work").resolveUnresolvedTarget (some "=work:0.0".toList) .pane .none
      emptyContext = .ok (.pane ⟨⟨"work".toList⟩, 0, 0⟩) := by
  have hwell : (pair "workshop" "work").WellFormed :=
    ⟨selected_storeOf _, by decide, by decide, by decide⟩
  have hpane : (pair "workshop" "work").HasPane ⟨"work".toList⟩ 0 0 :=
    ⟨oneSession "work" 1, oneWindow 1, rfl, rfl, by decide⟩
  exact (resolve_means hwell emptyContext fun _ _ => rfl).2
    (.pane ⟨⟨"work".toList⟩, 0, 0⟩) true .none hpane ⟨"work".toList, by decide⟩
    ⟨by decide, by decide, fun h => by cases h⟩ fun _ => by decide

end SessionStore

end Rmux
