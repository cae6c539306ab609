import Rmux.LayoutLeaves
import Rmux.WindowPanes

/-!
# What a window promises of its tree and its rectangles

A window's panes differ and its tree satisfies some `P` (`Window.Placed`). A window that is not
zoomed is also flat, and of a zoomed one only the active pane is shown elsewhere than in its leaf
(`Window.Coherent`). Almost every operation either leaves what is shown as it was or ends with a
coherent window (`Window.Settles`). That is proved once for every operation and every `P` that the
operations on trees keep (`TreeClosed`).
-/

namespace Rmux

open MachineInt LayoutCell
open List hiding beq_eq_decide

namespace Window

variable {w w' : Window} {pane : Pane} {i p : ℕ}

/-! ## The promises -/

variable {B : ℕ → Prop} {P : TerminalSize → LayoutTree → ℕ → Prop} (hP : TreeClosed B P)

/-- Every pane is shown in the rectangle of its leaf. -/
def Fitted (w : Window) : Prop :=
  ∀ t, w.layoutTree = some t → ∀ i pane, w.panes[i]? = some pane →
    t.paneGeometry i = some pane.geometry

/-- Panes with different identities and a tree for them, or no panes and no tree. -/
structure Placed (P : TerminalSize → LayoutTree → ℕ → Prop) (w : Window) : Prop where
  nodup : (w.panes.map Pane.id).Nodup
  tree : w.panes = [] ∧ w.layoutTree = none ∨
    ∃ t, w.layoutTree = some t ∧ P w.size t w.panes.length

/-- A window that is not zoomed. -/
structure Flat (P : TerminalSize → LayoutTree → ℕ → Prop) (w : Window) : Prop
    extends Placed P w where
  unzoomed : w.zoomed = false
  fitted : w.Fitted

/-- A flat window, or a zoomed one with two panes at least. -/
def Laid (P : TerminalSize → LayoutTree → ℕ → Prop) (w : Window) : Prop :=
  Flat P w ∨ Placed P w ∧ w.zoomed = true ∧ 2 ≤ w.panes.length

theorem Placed.of_perm (h : Placed P w) (htree : w'.layoutTree = w.layoutTree)
    (hsz : w'.size = w.size) (hperm : (w'.panes.map Pane.id).Perm (w.panes.map Pane.id)) :
    Placed P w' := by
  have hlen : w'.panes.length = w.panes.length := by simpa using hperm.length_eq
  refine ⟨hperm.nodup_iff.mpr h.nodup, h.tree.imp (fun ⟨hnil, hn⟩ => ⟨?_, htree.trans hn⟩)
    fun ⟨t, ht, hPt⟩ => ⟨t, htree.trans ht, ?_⟩⟩
  · rwa [← length_eq_zero_iff, hlen, length_eq_zero_iff]
  · rwa [hsz, hlen]

theorem Placed.of_eq (h : Placed P w) (htree : w'.layoutTree = w.layoutTree)
    (hsz : w'.size = w.size) (hids : w'.panes.map Pane.id = w.panes.map Pane.id) :
    Placed P w' := h.of_perm htree hsz (.of_eq hids)

theorem Placed.of_tree {t : LayoutTree} (h : Placed P w) (ht : w.layoutTree = some t) :
    P w.size t w.panes.length := by
  rcases h.tree with ⟨-, hn⟩ | ⟨t₀, ht₀, hPt⟩
  · rw [hn] at ht
    cases ht
  · obtain rfl : t₀ = t := Option.some.inj (ht₀.symm.trans ht)
    exact hPt

theorem Flat.of_view_eq (h : Flat P w) (hview : w'.view = w.view) : Flat P w' := by
  have hids := map_id_of_view_eq hview
  simp only [view, Prod.mk.injEq] at hview
  obtain ⟨htree, hsz, hzoom, hps⟩ := hview
  refine ⟨h.toPlaced.of_eq htree hsz hids, hzoom.trans h.unzoomed, ?_⟩
  intro t ht i pane hp
  have hi := congrArg (·[i]?) hps
  simp only [List.getElem?_map, hp, Option.map_some] at hi
  obtain ⟨pane', hp', heq⟩ := Option.map_eq_some_iff.mp hi.symm
  have hgeo : pane'.geometry = pane.geometry := congrArg Prod.snd heq
  rw [← hgeo]
  exact h.fitted t (htree.symm.trans ht) i pane' hp'

theorem Laid.of_view_eq (h : Laid P w) (hview : w'.view = w.view) : Laid P w' := by
  have hids := map_id_of_view_eq hview
  rcases h with hfl | ⟨hpl, hz, htwo⟩
  · exact .inl (hfl.of_view_eq hview)
  · simp only [view, Prod.mk.injEq] at hview
    obtain ⟨ht, hsz, hzoom, -⟩ := hview
    refine .inr ⟨hpl.of_eq ht hsz hids, hzoom.trans hz, ?_⟩
    rwa [length_panes_of_map_id_eq hids]

theorem Laid.placed (h : Laid P w) : Placed P w := h.elim (·.toPlaced) (·.1)

theorem Laid.flat (h : Laid P w) (hz : w.zoomed = false) : Flat P w := by
  rcases h with h | ⟨-, htrue, -⟩
  · exact h
  · rw [hz] at htrue
    cases htrue

@[simp] theorem zoomed_recalculateGeometry : w.recalculateGeometry.zoomed = w.zoomed := by
  unfold recalculateGeometry
  split <;> rfl

/-- Fitting the tree and assigning the rectangles once more change nothing. -/
theorem recalculateGeometry_eq : w.recalculateGeometry =
    match w.layoutTree with
    | none => w
    | some t => { w with
        layoutTree := some (t.resize w.size)
        size := (t.resize w.size).size }.applyLayoutTree := by
  unfold recalculateGeometry
  cases w.layoutTree <;> rfl

section

include hP

/-- Assigning the rectangles makes a window flat. -/
theorem Placed.applyLayoutTree (h : Placed P w) (hz : w.zoomed = false) :
    Flat P w.applyLayoutTree := by
  unfold Window.applyLayoutTree
  rcases h.tree with ⟨hnil, hn⟩ | ⟨t, ht, hPt⟩
  · rw [hn]
    exact ⟨h, hz, fun t ht => by rw [hn] at ht; cases ht⟩
  · rw [ht]
    refine ⟨⟨by simpa using h.nodup, .inr ⟨t, rfl, by simpa using hPt⟩⟩, hz, ?_⟩
    intro t' ht' i pane hp
    obtain rfl : t = t' := Option.some.inj ht'
    rw [LayoutTree.getElem?_applyToPanes, Option.map_eq_some_iff] at hp
    obtain ⟨old, hold, rfl⟩ := hp
    have hleafed := hP.leafed hPt
    have hi : i < t.leafCount := by
      rw [LayoutTree.leafCount, hleafed.leafCount]
      exact (List.getElem?_eq_some_iff.mp hold).1
    obtain ⟨g, hg⟩ := Option.isSome_iff_exists.mp
      (LayoutTree.paneGeometry_isSome hleafed.leafMapFits hi)
    rw [hg]
    rfl

/-- Fitting the tree to a size also fits the size to the tree, whatever it was. -/
theorem placed_recalculateGeometry {s : TerminalSize} (h : Placed P { w with size := s }) :
    Placed P w.recalculateGeometry := by
  unfold recalculateGeometry
  rcases h.tree with ⟨hnil, hn⟩ | ⟨t, ht, hPt⟩
  · change w.layoutTree = none at hn
    rw [hn]
    exact ⟨h.nodup, .inl ⟨hnil, hn⟩⟩
  · change w.layoutTree = some t at ht
    rw [ht]
    exact ⟨by simpa using h.nodup, .inr ⟨_, rfl, by simpa using hP.resize hPt w.size⟩⟩

theorem flat_recalculateGeometry {s : TerminalSize} (h : Placed P { w with size := s })
    (hz : w.zoomed = false) : Flat P w.recalculateGeometry := by
  rcases h.tree with ⟨hnil, hn⟩ | ⟨t, ht, hPt⟩
  · change w.layoutTree = none at hn
    have heq : w.recalculateGeometry = w := by rw [recalculateGeometry_eq, hn]
    rw [heq]
    exact ⟨⟨h.nodup, .inl ⟨hnil, hn⟩⟩, hz, fun t ht => by rw [hn] at ht; cases ht⟩
  · change w.layoutTree = some t at ht
    rw [recalculateGeometry_eq, ht]
    exact Placed.applyLayoutTree hP ⟨h.nodup, .inr ⟨_, rfl, hP.resize hPt w.size⟩⟩ hz

theorem Laid.autoUnzoom (h : Laid P w) : Flat P w.autoUnzoom := by
  unfold Window.autoUnzoom
  split_ifs with hz
  · exact flat_recalculateGeometry hP (s := w.size)
      (w := { w with zoomed := false }) (h.placed.of_eq rfl rfl rfl) rfl
  · exact h.flat (by simpa using hz)

/-! ## Building and changing the tree -/

theorem flat_rebuildNamedLayoutTree (hnd : (w.panes.map Pane.id).Nodup) (hB : B w.panes.length)
    (hz : w.zoomed = false) (layout : LayoutName) : Flat P (w.rebuildNamedLayoutTree layout) := by
  unfold rebuildNamedLayoutTree
  split_ifs with hemp
  · exact ⟨⟨hnd, .inl ⟨isEmpty_iff.mp hemp, rfl⟩⟩, hz, fun t ht => by cases ht⟩
  · have hpos : 1 ≤ w.panes.length :=
      length_pos_iff.mpr fun hnil => hemp (isEmpty_iff.mpr hnil)
    exact Placed.applyLayoutTree hP ⟨hnd, .inr ⟨_, rfl, hP.named hpos hB _ _ _⟩⟩ hz

variable {change : LayoutTree → Option LayoutTree}

/-- A change of the tree for the panes there are now. -/
theorem flat_updateTree
    (hnd : (w.panes.map Pane.id).Nodup) (hB : B w.panes.length) (hz : w.zoomed = false)
    (hchg : ∀ t t', w.layoutTree = some t → change t = some t' → P w.size t' w.panes.length) :
    Flat P (w.updateTree change) := by
  unfold updateTree
  split
  · exact flat_rebuildNamedLayoutTree hP hnd hB hz _
  · rename_i t' ht'
    obtain ⟨t, ht, hc⟩ := Option.bind_eq_some_iff.mp ht'
    exact Placed.applyLayoutTree hP ⟨hnd, .inr ⟨t', rfl, hchg t t' ht hc⟩⟩ hz

/-- A change of the tree for the same panes, if there is one. -/
theorem Flat.tryUpdateTree (h : Flat P w)
    (hchg : ∀ t t', P w.size t w.panes.length → change t = some t' →
      P w.size t' w.panes.length) : Flat P (w.tryUpdateTree change).2 := by
  unfold Window.tryUpdateTree
  split
  · exact h
  · rename_i t' ht'
    obtain ⟨t, ht, hc⟩ := Option.bind_eq_some_iff.mp ht'
    exact Placed.applyLayoutTree hP (w := { w with layoutTree := some t' })
      ⟨h.nodup, .inr ⟨t', rfl, hchg t t' (h.of_tree ht) hc⟩⟩ h.unzoomed

theorem flat_single (hps : w.panes = [pane]) (ht : w.layoutTree = some (.single w.size))
    (hz : w.zoomed = false) : Flat P w.recalculateGeometry := by
  refine flat_recalculateGeometry hP (s := w.size) ⟨by simp [hps], .inr ⟨_, ht, ?_⟩⟩ hz
  rw [hps]
  exact hP.single w.size

theorem flat_newWithInitialPane (size : TerminalSize) (paneId : PaneId) (id : WindowId) :
    Flat P (newWithInitialPane size paneId id) :=
  flat_single hP rfl rfl rfl

theorem flat_renumberSinglePaneToZero (hone : w.panes.length = 1) :
    Flat P w.renumberSinglePaneToZero := by
  obtain ⟨pane, hp⟩ := length_eq_one_iff.mp hone
  unfold renumberSinglePaneToZero
  rw [hp]
  exact flat_single hP rfl rfl rfl

end

@[simp] theorem length_panes_newWithInitialPane (size : TerminalSize) (paneId : PaneId)
    (id : WindowId) : (newWithInitialPane size paneId id).panes.length = 1 :=
  length_panes_of_map_id_eq map_id_recalculateGeometry

/-! ## Outcomes of an operation -/

/-- What is shown, and which pane is active. -/
def shown (w : Window) : Option LayoutTree × TerminalSize × Bool × ℕ × List Pane :=
  (w.layoutTree, w.size, w.zoomed, w.activePane, w.panes)

/-- The window with its active pane shown over all of it. -/
def zoomIn (w : Window) : Window := { w with zoomed := true }.applyZoomGeometry

/-- A window that shows what zooming a flat window of two panes shows. -/
def ZoomedIn (P : TerminalSize → LayoutTree → ℕ → Prop) (w : Window) : Prop :=
  ∃ w₁, Flat P w₁ ∧ 2 ≤ w₁.panes.length ∧ w₁.activePane ∈ w₁.panes.map Pane.index ∧
    w.shown = w₁.zoomIn.shown

/-- A window whose rectangles are those of its tree, but for a zoomed active pane. -/
def Coherent (P : TerminalSize → LayoutTree → ℕ → Prop) (w : Window) : Prop :=
  Flat P w ∨ ZoomedIn P w

/-- What is shown stays, or the window is coherent afterwards. -/
def Settles (P : TerminalSize → LayoutTree → ℕ → Prop) (w w' : Window) : Prop :=
  w'.shown = w.shown ∨ Coherent P w'

theorem view_eq_of_shown_eq (h : w'.shown = w.shown) : w'.view = w.view := by
  simp only [shown, Prod.mk.injEq] at h
  obtain ⟨ht, hsz, hzoom, -, hps⟩ := h
  rw [view, view, ht, hsz, hzoom, hps]

theorem Settles.refl (w : Window) : Settles P w w := .inl rfl

theorem Flat.settles (h : Flat P w') : Settles P w w' := .inr (.inl h)

theorem Coherent.of_shown_eq (h : Coherent P w) (hshow : w'.shown = w.shown) : Coherent P w' := by
  rcases h with hfl | ⟨w₁, hfl, hlen, hact, hshown₁⟩
  · exact .inl (hfl.of_view_eq (view_eq_of_shown_eq hshow))
  · exact .inr ⟨w₁, hfl, hlen, hact, hshow.trans hshown₁⟩

theorem Coherent.of_settles (h : Coherent P w) (hs : Settles P w w') : Coherent P w' :=
  hs.elim h.of_shown_eq fun hcoh => hcoh

theorem Settles.trans {w₁ : Window} (h : Settles P w w₁) (h' : Settles P w₁ w') :
    Settles P w w' := by
  rcases h' with hshow | hcoh
  · exact h.imp hshow.trans fun h₁ => h₁.of_shown_eq hshow
  · exact .inr hcoh

theorem Laid.of_shown_eq (h : Laid P w) (hshow : w'.shown = w.shown) : Laid P w' :=
  h.of_view_eq (view_eq_of_shown_eq hshow)

theorem Flat.laid_zoomIn (h : Flat P w) (hlen : 2 ≤ w.panes.length) : Laid P w.zoomIn := by
  refine .inr ⟨h.toPlaced.of_eq rfl rfl map_id_applyZoomGeometry, rfl, ?_⟩
  exact hlen.trans_eq (length_panes_of_map_id_eq map_id_applyZoomGeometry).symm

theorem Coherent.laid (h : Coherent P w) : Laid P w := by
  rcases h with hfl | ⟨w₁, hfl, hlen, -, hshow⟩
  · exact .inl hfl
  · exact (hfl.laid_zoomIn hlen).of_shown_eq hshow

theorem Laid.of_settles (h : Laid P w) (hs : Settles P w w') : Laid P w' :=
  hs.elim h.of_shown_eq Coherent.laid

/-! ## Selecting and zooming -/

@[simp] theorem map_index_markPaneActive (paneIndex : ℕ) :
    (w.markPaneActive paneIndex).panes.map Pane.index = w.panes.map Pane.index :=
  map_modify_eq _ _ _ Pane.index fun _ => rfl

/-- Selecting a pane makes it the active one. -/
theorem selectPane_spec {paneIndex : ℕ} (h : paneIndex ∈ w.panes.map Pane.index) :
    (w.selectPane paneIndex).activePane = paneIndex ∧
      (w.selectPane paneIndex).panes.map Pane.index = w.panes.map Pane.index := by
  unfold selectPane
  rw [if_neg fun hn => pane_isNone_iff.mp hn h]
  split_ifs with hne
  · refine ⟨rfl, ?_⟩
    rw [map_index_markPaneActive]
    exact map_index_autoUnzoom
  · exact ⟨not_ne_iff.mp hne, rfl⟩

/-- Zooming again what `pushZoom` unzoomed. -/
theorem Flat.popZoom (h : Flat P w) (hact : w.zoomRestorePending = true →
    2 ≤ w.panes.length → w.activePane ∈ w.panes.map Pane.index) : Settles P w w.popZoom := by
  unfold Window.popZoom
  split_ifs with hpend hlen
  · exact .inr (.inr ⟨w, h, hlen, hact hpend hlen, rfl⟩)
  · exact .inl rfl
  · exact .refl w

section

include hP

variable (h : Laid P w)

include h

theorem selectPane_cases (paneIndex : ℕ) :
    w.selectPane paneIndex = w ∨ Flat P (w.selectPane paneIndex) := by
  unfold Window.selectPane
  split_ifs
  · exact .inl rfl
  · refine .inr ((h.autoUnzoom hP).of_view_eq ?_)
    exact view_markPaneActive paneIndex
  · exact .inl rfl

theorem Laid.selectPane (paneIndex : ℕ) : Settles P w (w.selectPane paneIndex) := by
  rcases selectPane_cases hP h paneIndex with heq | hfl
  · rw [heq]
    exact .refl w
  · exact hfl.settles

theorem Laid.selectPaneById (paneId : PaneId) : Settles P w (w.selectPaneById paneId) := by
  unfold Window.selectPaneById
  split
  · exact .refl w
  · exact h.selectPane hP _

theorem Laid.selectAdjacentPane (paneIndex : ℕ) (d : SelectPaneDirection) :
    Settles P w (w.selectAdjacentPane paneIndex d) := by
  unfold Window.selectAdjacentPane
  split
  · exact .refl w
  · split
    · exact .refl w
    · exact h.selectPane hP _

theorem Laid.toggleZoom (paneIndex : ℕ) : Settles P w (w.toggleZoom paneIndex) := by
  unfold Window.toggleZoom
  split_ifs with hp hz hlen
  · exact .refl w
  · exact (h.autoUnzoom hP).settles
  · exact .refl w
  · have hfl := h.flat (by simpa using hz)
    obtain ⟨hact, hidx⟩ := selectPane_spec (not_not.mp (mt pane_isNone_iff.mpr hp))
    refine .inr (.inr ⟨w.selectPane paneIndex, ?_, ?_, ?_, rfl⟩)
    · rcases selectPane_cases hP h paneIndex with heq | hfl'
      · rwa [heq]
      · exact hfl'
    · have hlength := congrArg List.length hidx
      simp only [length_map] at hlength
      omega
    · rw [hact, hidx]
      exact not_not.mp (mt pane_isNone_iff.mpr hp)

theorem Laid.pushZoom (restore : Bool) : Flat P (w.pushZoom restore) :=
  (h.autoUnzoom hP).of_view_eq rfl

end

/-! ## Adding and removing panes -/

theorem nodup_map_id_insertIdx {ps : List Pane} (hi : i ≤ ps.length)
    (hnd : (ps.map Pane.id).Nodup) (hfr : pane.id ∉ ps.map Pane.id) :
    ((ps.insertIdx i pane).map Pane.id).Nodup := by
  rw [((perm_insertIdx _ _ hi).map Pane.id).nodup_iff, map_cons, nodup_cons]
  exact ⟨hfr, hnd⟩

section

include hP

/-- A pane is inserted and a leaf is split for it. -/
theorem flat_insertPane (h : Flat P w) (hB : B (w.panes.length + 1)) {leaf : ℕ}
    {d : LayoutDirection} (hi : i ≤ w.panes.length) (hfr : pane.id ∉ w.panes.map Pane.id)
    (htree : w'.layoutTree = w.layoutTree) (hsz : w'.size = w.size) (hz : w'.zoomed = w.zoomed)
    (hps : w'.panes = w.panes.insertIdx i pane) :
    Flat P (w'.updateTree fun tree => tree.splitLeaf leaf d) := by
  have hlen : w'.panes.length = w.panes.length + 1 := by
    rw [hps, length_insertIdx_of_le_length hi]
  refine flat_updateTree hP ?_ (hlen ▸ hB) (hz.trans h.unzoomed) ?_
  · rw [hps]
    exact nodup_map_id_insertIdx hi h.nodup hfr
  · intro t t' ht ht'
    rw [htree] at ht
    rw [hlen, hsz]
    exact hP.splitLeaf (h.of_tree ht) ht'

theorem Laid.splitAtPosition (h : Laid P w) (hpos : p < w.panes.length)
    {paneId : PaneId} (hfr : paneId ∉ w.panes.map Pane.id) (d : SplitDirection)
    (before detached : Bool) (hB : B (w.panes.length + 1)) :
    Flat P (w.splitAtPositionWithIdAndDirectionDetached p paneId d before
      detached) := by
  refine Flat.of_view_eq ?_ (view_commitSplitRenumber _ _ _ _)
  refine flat_insertPane hP (h.autoUnzoom hP) (i := if before then p else p + 1)
    ?_ ?_ ?_ rfl rfl rfl rfl
  · rwa [length_panes_autoUnzoom]
  · rw [length_panes_autoUnzoom]
    split_ifs <;> omega
  · rwa [map_id_autoUnzoom]

theorem Flat.dropPane (h : Flat P w) (hpos : p < w.panes.length)
    (hB : B (w.panes.length - 1)) : Flat P (w.dropPane p) := by
  have herase := length_eraseIdx_add_one hpos
  refine flat_updateTree hP (h.nodup.sublist ((eraseIdx_sublist _ _).map _)) ?_ h.unzoomed ?_
  · show B (w.panes.eraseIdx p).length
    rwa [← herase, Nat.add_sub_cancel] at hB
  · intro t t' ht ht'
    have hPt := h.of_tree ht
    rw [← herase] at hPt
    exact hP.removeLeaf hPt ht'

theorem Laid.extractPane (h : Laid P w) (paneIndex : ℕ) (hB : B (w.panes.length - 1)) :
    Settles P w (w.extractPane paneIndex).2 := by
  have hfl := h.autoUnzoom hP
  unfold Window.extractPane
  split
  · exact .refl w
  rename_i p _
  dsimp only
  split
  swap
  · exact hfl.settles
  rename_i hrem
  have hpos : p < w.autoUnzoom.panes.length := (List.getElem?_eq_some_iff.mp hrem).1
  refine Flat.settles ?_
  split_ifs with hone htwo
  · exact ⟨⟨nodup_nil, .inl ⟨rfl, rfl⟩⟩, hfl.unzoomed, fun t ht => by cases ht⟩
  · refine flat_renumberSinglePaneToZero hP ?_
    have := length_panes_dropPane hpos
    omega
  · refine Flat.of_view_eq ?_ (view_renumberPanesByPosition _ _)
    exact hfl.dropPane hP hpos (by rwa [length_panes_autoUnzoom])

theorem Laid.removePane (h : Laid P w) (paneIndex : ℕ) (hB : B (w.panes.length - 1)) :
    Settles P w (w.removePane paneIndex).2 := by
  unfold Window.removePane
  split_ifs with hone
  · exact .refl w
  · exact h.extractPane hP paneIndex hB

theorem Laid.removeOtherPanes (h : Laid P w) (paneIndex : ℕ) :
    Settles P w (w.removeOtherPanes paneIndex).2 := by
  unfold Window.removeOtherPanes
  split
  · exact .refl w
  rename_i keep hkeep
  dsimp only
  split_ifs
  · exact h.selectPane hP paneIndex
  -- Identities differ, so exactly one pane is kept.
  refine (flat_renumberSinglePaneToZero hP ?_).settles
  have hmem : keep.id ∈ w.autoUnzoom.panes.map Pane.id := by
    rw [map_id_autoUnzoom]
    exact mem_map_of_mem (mem_of_find?_eq_some hkeep)
  have hcnt := count_eq_one_of_mem (h.autoUnzoom hP).nodup hmem
  rw [count_eq_countP, countP_map, countP_eq_length_filter] at hcnt
  simpa [Function.comp_def, beq_eq_decide] using hcnt

end

/-! ## Rearranging -/

/-- The source leaf is there to be removed once the target has been split. -/
theorem removeLeaf_isSome_of_splitLeaf {t split : LayoutTree} {n src target : ℕ}
    {d : LayoutDirection} (ht : Leafed t n) (hsrc : src < n)
    (hspl : t.splitLeaf target d = some split) (before : Bool) :
    (split.removeLeaf (sourceLeafAfterSplit src target before)).isSome := by
  have hcnt := (ht.splitLeaf hspl).leafCount
  refine LayoutTree.removeLeaf_isSome ?_ fun g hg => ?_
  · have hle : sourceLeafAfterSplit src target before ≤ src + 1 := by
      unfold sourceLeafAfterSplit
      dsimp only
      split_ifs <;> omega
    omega
  · rw [hg, leafCount_pane] at hcnt
    omega

theorem map_index_numberPanes (ps : List Pane) :
    (numberPanes ps).map Pane.index = List.range ps.length := by
  refine ext_getElem? fun i => ?_
  simp only [numberPanes, List.getElem?_map, List.getElem?_mapIdx, Option.map_map]
  rcases Nat.lt_or_ge i ps.length with hi | hi
  · simp [hi]
  · simp [hi]

@[simp] theorem map_index_applyLayoutTree :
    w.applyLayoutTree.panes.map Pane.index = w.panes.map Pane.index := by
  unfold applyLayoutTree
  split <;> simp

section

include hP

theorem Laid.movePaneBySplittingTarget (h : Laid P w) (src target p : ℕ)
    (d : SplitDirection) (before : Bool) :
    Settles P w (w.movePaneBySplittingTarget src target p d before).2 := by
  have hfl := h.autoUnzoom hP
  unfold Window.movePaneBySplittingTarget
  dsimp only
  split_ifs with hsrc htgt hfinal
  · exact .refl w
  · exact .refl w
  · exact .refl w
  refine Flat.settles ?_
  split
  · exact hfl.of_view_eq rfl
  rename_i t ht
  split
  · exact hfl.of_view_eq rfl
  rename_i split hspl
  have hPt := hfl.of_tree ht
  rw [length_panes_autoUnzoom] at hPt
  have hlt : src < w.autoUnzoom.panes.length := by
    rw [length_panes_autoUnzoom]
    omega
  obtain ⟨removed, hrem⟩ := Option.isSome_iff_exists.mp
    (removeLeaf_isSome_of_splitLeaf (hP.leafed hPt) (Nat.lt_of_not_le hsrc) hspl before)
  rw [hrem, List.getElem?_eq_getElem hlt]
  dsimp only
  have hperm : ((w.autoUnzoom.panes.eraseIdx src).insertIdx p
      w.autoUnzoom.panes[src]).Perm w.autoUnzoom.panes := by
    have herase := length_eraseIdx_add_one hlt
    have hlen := length_panes_autoUnzoom (w := w)
    have hle : p ≤ (w.autoUnzoom.panes.eraseIdx src).length := by omega
    exact (perm_insertIdx _ _ hle).trans (getElem_cons_eraseIdx_perm hlt)
  refine Placed.applyLayoutTree hP ⟨(hperm.map Pane.id).nodup_iff.mpr hfl.nodup,
    .inr ⟨removed, rfl, ?_⟩⟩ hfl.unzoomed
  rw [hperm.length_eq, length_panes_autoUnzoom]
  exact hP.removeLeaf (hP.splitLeaf hPt hspl) hrem

theorem Laid.swapPanes (h : Laid P w) (src t : ℕ) : Settles P w (w.swapPanes src t).2 := by
  have hfl := h.autoUnzoom hP
  unfold Window.swapPanes
  split
  swap
  · exact .refl w
  split_ifs
  · exact .refl w
  dsimp only
  split
  swap
  · exact hfl.settles
  rename_i hsrc htgt
  obtain ⟨hi, rfl⟩ := List.getElem?_eq_some_iff.mp hsrc
  obtain ⟨hj, rfl⟩ := List.getElem?_eq_some_iff.mp htgt
  refine Flat.settles (Flat.of_view_eq ?_ (view_renumberPanesByPosition _ _))
  exact Placed.applyLayoutTree hP
    (hfl.toPlaced.of_perm rfl rfl ((set_set_perm hi hj).map Pane.id)) hfl.unzoomed

theorem Laid.rotatePanesWithZoom (h : Laid P w) (d : RotateWindowDirection)
    (restore : Bool) : Settles P w (w.rotatePanesWithZoom d restore) := by
  unfold Window.rotatePanesWithZoom
  split_ifs
  · exact .refl w
  have hpu := h.pushZoom hP restore
  generalize w.pushZoom restore = w₀ at hpu
  dsimp only
  split
  swap
  · exact hpu.settles
  rename_i active p _ hpos
  have hlt : p < w₀.panes.length := (List.findIdx?_eq_some_iff_getElem.mp hpos).1
  have hperm := rotatedPanes_perm w₀.panes d
  generalize rotatedPanes w₀.panes d = rotated at hperm
  have hfl : Flat P ({ w₀ with panes := numberPanes rotated } : Window).applyLayoutTree := by
    refine Placed.applyLayoutTree hP (hpu.toPlaced.of_perm rfl rfl ?_) hpu.unzoomed
    rw [map_id_numberPanes]
    exact hperm.map Pane.id
  have hidx : ({ w₀ with panes := numberPanes rotated } :
      Window).applyLayoutTree.panes.map Pane.index = List.range w₀.panes.length := by
    rw [map_index_applyLayoutTree, map_index_numberPanes, hperm.length_eq]
  generalize ({ w₀ with panes := numberPanes rotated } : Window).applyLayoutTree = w₁
    at hfl hidx
  have hm : ∀ last : Option ℕ, Flat P
      (({ w₁ with activePane := p, lastPane := last } : Window).markPaneActive p) :=
    fun last => hfl.of_view_eq (view_markPaneActive p)
  refine Settles.trans (hm _).settles ((hm _).popZoom fun _ _ => ?_)
  rw [map_index_markPaneActive]
  show p ∈ w₁.panes.map Pane.index
  rw [hidx]
  exact mem_range.mpr hlt

end

/-! ## Panes of other windows -/

theorem forM_eq_ok {ε α : Type} {f : α → Except ε Unit} :
    ∀ {l : List α}, l.forM f = .ok () → ∀ x ∈ l, f x = .ok ()
  | [], _, _, hx => by cases hx
  | y :: l, h, x, hx => by
    obtain ⟨⟨⟩, hy, hl⟩ := Except.bind_eq_ok h
    rcases mem_cons.mp hx with rfl | hx
    · exact hy
    · exact forM_eq_ok hl x hx

/-- A pane that is accepted is new to the window, but for the exempt position. -/
theorem ensureAcceptsPane_ok {ignored : Option ℕ} (h : w.ensureAcceptsPane pane ignored = .ok ())
    {existing : Pane} (hi : w.panes[i]? = some existing) (hne : some i ≠ ignored) :
    existing.id ≠ pane.id ∧ existing.index ≠ pane.index := by
  have hmem : (existing, i) ∈
      w.panes.zipIdx.filter fun place => some place.2 ≠ ignored := by
    rw [mem_filter]
    exact ⟨mem_zipIdx_iff_getElem?.mpr hi, by simpa using hne⟩
  have hok := forM_eq_ok h _ hmem
  dsimp only at hok
  split_ifs at hok with hid hidx
  exact ⟨hid, hidx⟩

theorem not_mem_map_id_of_ok (h : w.ensureAcceptsPane pane none = .ok ()) :
    pane.id ∉ w.panes.map Pane.id := by
  intro hmem
  obtain ⟨existing, hex, hid⟩ := mem_map.mp hmem
  obtain ⟨i, hi⟩ := mem_iff_getElem?.mp hex
  exact (ensureAcceptsPane_ok h hi (by simp)).1 hid

theorem nodup_map_id_set {ps : List Pane} (hi : i < ps.length)
    (hnd : (ps.map Pane.id).Nodup) (hfr : pane.id ∉ (ps.eraseIdx i).map Pane.id) :
    ((ps.set i pane).map Pane.id).Nodup := by
  have hperm : (ps.set i pane).Perm (pane :: ps.eraseIdx i) := by
    have hlt : i < (ps.set i pane).length := by rwa [length_set]
    have h := (getElem_cons_eraseIdx_perm hlt).symm
    rwa [getElem_set_self, eraseIdx_set_eq] at h
  rw [(hperm.map Pane.id).nodup_iff, map_cons, nodup_cons]
  exact ⟨hfr, hnd.sublist ((eraseIdx_sublist _ _).map _)⟩

/-- A pane takes the place of another one. Only a window that is not zoomed is flat again. -/
theorem replacePaneForSwap_placed (h : Placed P w) {paneIndex : ℕ}
    (hok : w.replacePaneForSwap paneIndex pane = .ok w') :
    ∃ w₁, Placed P w₁ ∧ w₁.zoomed = w.zoomed ∧ w₁.panes.length = w.panes.length ∧
      w' = w₁.applyLayoutTree := by
  unfold replacePaneForSwap at hok
  split at hok
  · cases hok
  rename_i p hpos
  split_ifs at hok with hany
  cases hok
  have hlt : p < w.panes.length := (List.findIdx?_eq_some_iff_getElem.mp hpos).1
  refine ⟨{ w.bumpNextPaneIndex pane.index with panes := w.panes.set p pane },
    ⟨?_, ?_⟩, rfl, by simp, rfl⟩
  · refine nodup_map_id_set hlt h.nodup fun hmem => hany ?_
    obtain ⟨existing, hex, hid⟩ := mem_map.mp hmem
    exact any_eq_true.mpr ⟨existing, hex, decide_eq_true hid⟩
  · rcases h.tree with ⟨hnil, -⟩ | ⟨t, ht, hPt⟩
    · rw [hnil] at hlt
      cases hlt
    · refine .inr ⟨t, ht, ?_⟩
      rw [length_set]
      exact hPt

section

include hP

variable (h : Laid P w)

include h

theorem Laid.insertPaneAtPosition {d : SplitDirection} (hB : B (w.panes.length + 1))
    (hok : w.insertPaneAtPosition p pane d = .ok w') : Flat P w' := by
  have hfl := h.autoUnzoom hP
  unfold Window.insertPaneAtPosition at hok
  split at hok
  · cases hok
  obtain ⟨⟨⟩, hacc, hok⟩ := Except.bind_eq_ok hok
  have hfr := not_mem_map_id_of_ok hacc
  rw [← map_id_autoUnzoom] at hfr
  have hle : p ≤ w.autoUnzoom.panes.length := by
    rw [length_panes_autoUnzoom]
    omega
  dsimp only at hok
  split at hok
  · rename_i hone
    cases hok
    refine Placed.applyLayoutTree hP ⟨?_, .inr ⟨_, rfl, ?_⟩⟩ hfl.unzoomed
    · exact nodup_map_id_insertIdx hle hfl.nodup hfr
    · rw [hone]
      exact hP.single _
  · cases hok
    exact flat_insertPane hP hfl (by rwa [length_panes_autoUnzoom]) hle hfr rfl rfl rfl rfl

theorem Laid.insertPaneFullSize {direction : SplitDirection} {before : Bool}
    (hB : B (w.panes.length + 1))
    (hrt : ∀ s t t' d, P s t w.panes.length → t.splitRoot d before = some t' → P s t' (w.panes.length + 1))
    (hok : w.insertPaneFullSize pane direction before = .ok w') : Flat P w' := by
  have hfl := h.autoUnzoom hP
  obtain ⟨⟨⟩, hacc, hok⟩ := Except.bind_eq_ok hok
  have hfr := not_mem_map_id_of_ok hacc
  rw [← map_id_autoUnzoom] at hfr
  cases hok
  have hperm : (if before = true then pane :: w.autoUnzoom.panes
      else w.autoUnzoom.panes ++ [pane]).Perm (pane :: w.autoUnzoom.panes) := by
    split_ifs
    · exact .refl _
    · exact perm_append_singleton _ _
  have hlen : (if before = true then pane :: w.autoUnzoom.panes
      else w.autoUnzoom.panes ++ [pane]).length = w.panes.length + 1 := by
    rw [hperm.length_eq, length_cons, length_panes_autoUnzoom]
  have hB' := hB
  rw [← hlen] at hB'
  refine flat_updateTree hP ?_ hB' hfl.unzoomed ?_
  · refine (hperm.map Pane.id).nodup_iff.mpr ?_
    rw [map_cons, nodup_cons]
    exact ⟨hfr, hfl.nodup⟩
  · intro t t' ht ht'
    have hPt := hfl.of_tree ht
    rw [length_panes_autoUnzoom] at hPt
    have hPt' := hrt _ _ _ _ hPt ht'
    rw [← hlen] at hPt'
    exact hPt'

/-! ## Layouts and sizes -/

theorem Laid.rebuildAfterUnzoom (hB : B w.panes.length) (hps : w'.panes = w.autoUnzoom.panes)
    (hz : w'.zoomed = w.autoUnzoom.zoomed) (t : LayoutName) :
    Flat P (w'.rebuildNamedLayoutTree t) := by
  have hfl := h.autoUnzoom hP
  refine flat_rebuildNamedLayoutTree hP (hps ▸ hfl.nodup) ?_ (hz.trans hfl.unzoomed) t
  rwa [hps, length_panes_autoUnzoom]

theorem Laid.setLayoutWithMainPaneSize (hB : B w.panes.length) (t : LayoutName)
    (mainWidth mainHeight : Option UInt16) :
    Flat P (w.setLayoutWithMainPaneSize t mainWidth mainHeight) := by
  refine h.rebuildAfterUnzoom hP hB ?_ ?_ t
  · rfl
  · rfl

theorem Laid.resizeMainPaneTo (hB : B w.panes.length) (d : LayoutDirection) (cells : UInt16) :
    Flat P (w.resizeMainPaneTo d cells) := by
  have hfl := h.autoUnzoom hP
  unfold Window.resizeMainPaneTo
  dsimp only
  split_ifs
  · exact hfl.tryUpdateTree hP fun t t' hPt ht' =>
      hP.movedBy hPt (LayoutTree.resizePaneTo_moved ht')
  · refine h.rebuildAfterUnzoom hP hB ?_ ?_ _
    · cases d <;> rfl
    · cases d <;> rfl

theorem Laid.resizeMainPaneSimple (hB : B w.panes.length) (adjustment : ResizePaneAdjustment) :
    Settles P w (w.resizeMainPaneSimple adjustment) := by
  cases adjustment with
  | zoom => exact h.toggleZoom hP _
  | noOp | absoluteSize | trimBelow | composite => exact .refl w
  | absoluteWidth | absoluteHeight | up | down | left | right =>
    exact (h.resizeMainPaneTo hP hB _ _).settles

theorem Laid.resizeMainPane (hB : B w.panes.length) (adjustment : ResizePaneAdjustment) :
    Settles P w (w.resizeMainPane adjustment) := by
  -- One extent after the other; each is a window of as many panes.
  have hopt : ∀ {w : Window} (d : LayoutDirection) (cells : Option UInt16), Laid P w →
      B w.panes.length →
      Settles P w ((cells.map (w.resizeMainPaneTo d)).getD w) ∧
        ((cells.map (w.resizeMainPaneTo d)).getD w).panes.length = w.panes.length := by
    intro w d cells h hB
    cases cells with
    | none => exact ⟨.refl w, rfl⟩
    | some cells => exact ⟨(h.resizeMainPaneTo hP hB d cells).settles,
        (samePanes_resizeMainPaneTo d cells).length_eq⟩
  cases adjustment with
  | absoluteSize cols rows =>
    have h₁ : Laid P (w.resizeMainPaneTo .leftRight cols) :=
      .inl (h.resizeMainPaneTo hP hB .leftRight cols)
    refine (h₁.resizeMainPaneTo hP ?_ .topBottom rows).settles
    rwa [(samePanes_resizeMainPaneTo _ _).length_eq]
  | composite cols rows relative cells =>
    obtain ⟨hcolumns, hlen⟩ := hopt .leftRight cols h hB
    have h₁ := h.of_settles hcolumns
    obtain ⟨hrw, hlen'⟩ := hopt .topBottom rows h₁ (by rwa [hlen])
    have h₂ := h₁.of_settles hrw
    refine (hcolumns.trans hrw).trans ?_
    cases relative with
    | none => exact .refl _
    | some r => exact h₂.resizeMainPaneSimple hP (by rwa [hlen', hlen]) _
  | absoluteWidth | absoluteHeight | zoom | up | down | left | right | noOp | trimBelow =>
    exact h.resizeMainPaneSimple hP hB _

theorem Laid.resizePaneTo (paneIndex : ℕ) (d : SplitDirection) (newSize : ℕ) :
    Settles P w (w.resizePaneTo paneIndex d newSize).2 := by
  unfold Window.resizePaneTo
  split
  · exact .refl w
  · exact ((h.autoUnzoom hP).tryUpdateTree hP fun t t' hPt ht' =>
      hP.movedBy hPt (LayoutTree.resizePaneTo_moved ht')).settles

theorem Laid.resizeNewSplitPaneTo (newPaneIndex : ℕ) (d : SplitDirection) (newSize : ℕ)
    (before : Bool) : Settles P w (w.resizeNewSplitPaneTo newPaneIndex d newSize before).2 := by
  unfold Window.resizeNewSplitPaneTo
  split_ifs
  · exact h.resizePaneTo hP _ _ _
  · split
    · exact .refl w
    · exact h.resizePaneTo hP _ _ _
    · split
      · exact h.resizePaneTo hP _ _ _
      · exact .refl w

theorem Laid.resizePaneAlong (hB : B w.panes.length) (d : LayoutDirection) (paneIndex : ℕ)
    (cells : UInt16) : Settles P w (w.resizePaneAlong d paneIndex cells).2 := by
  unfold Window.resizePaneAlong
  split
  · exact .refl w
  rename_i p _
  split_ifs
  · exact (h.resizeMainPaneTo hP hB d cells).settles
  have htry : Flat P (w.autoUnzoom.tryUpdateTree fun tree =>
      tree.resizePaneTo p d cells.toNat).2 :=
    (h.autoUnzoom hP).tryUpdateTree hP fun t t' hPt ht' =>
      hP.movedBy hPt (LayoutTree.resizePaneTo_moved ht')
  dsimp only
  split
  · rename_i htrue
    rw [htrue] at htry
    refine (htry.of_view_eq ?_).settles
    cases d <;> rfl
  · rename_i hfalse
    rw [hfalse] at htry
    exact htry.settles

omit h

/-- Remembering the main pane's extent does not touch the tree. -/
theorem flat_applyLayoutTree_sync (h : Placed P w) (hz : w.zoomed = false) :
    Flat P w.syncRequestedMainSizeAfterDirectionalResize.applyLayoutTree := by
  unfold syncRequestedMainSizeAfterDirectionalResize
  split_ifs
  · exact h.applyLayoutTree hP hz
  · split <;> exact Placed.applyLayoutTree hP (h.of_eq rfl rfl rfl) hz

theorem Laid.resizePaneBy (h : Laid P w) (paneIndex : ℕ) (adjustment : ResizePaneAdjustment) :
    Settles P w (w.resizePaneBy paneIndex adjustment).2 := by
  have hfl := h.autoUnzoom hP
  unfold Window.resizePaneBy
  split
  swap
  · exact .refl w
  dsimp only
  split
  · exact hfl.settles
  rename_i t' ht'
  obtain ⟨t, ht, hchg⟩ := Option.bind_eq_some_iff.mp ht'
  have hPt := hfl.of_tree ht
  have hP' : P w.autoUnzoom.size t' w.autoUnzoom.panes.length := by
    rcases LayoutTree.resizePaneBy_moved hchg with rfl | hmove
    · exact hPt
    · exact hP.movedBy hPt hmove
  have hpl : Placed P { w.autoUnzoom with layoutTree := some t' } :=
    ⟨hfl.nodup, .inr ⟨t', rfl, hP'⟩⟩
  exact (flat_applyLayoutTree_sync hP hpl hfl.unzoomed).settles

end

end Window

end Rmux
