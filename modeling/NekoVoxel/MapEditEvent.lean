import NekoVoxel.ForEachNode
import NekoVoxel.ContainerPos

/-!
`MapEditEvent` and `getArea`. For the bulk type the area is a fold of `addPoint` over the
modified blocks, adding each block's first and last node. `VoxelArea` lives in voxel.h,
outside the sources; it is modelled from its meaning: an empty area becomes the added point,
any other area grows to include it.
-/
namespace NekoVoxel

inductive MapEditEventType
  | MEET_ADDNODE
  | MEET_REMOVENODE
  | MEET_SWAPNODE
  | MEET_BLOCK_NODE_METADATA_CHANGED
  | MEET_OTHER
  deriving DecidableEq, Repr

structure MapEditEvent where
  type : MapEditEventType := .MEET_OTHER
  p : V3 Int
  modified_blocks : List (V3 Int) := []
  deriving DecidableEq, Repr

/-- Modelled from the spec: `VoxelArea` (voxel.h, not in the sources) is the box
    `MinEdge .. MaxEdge`; the default area `(1,1,1) .. (0,0,0)` is empty. -/
structure VoxelArea where
  MinEdge : V3 Int := ⟨1, 1, 1⟩
  MaxEdge : V3 Int := ⟨0, 0, 0⟩
  deriving DecidableEq, Repr

namespace VoxelArea

def ofPoint (p : V3 Int) : VoxelArea := ⟨p, p⟩

def hasEmptyExtent (a : VoxelArea) : Bool :=
  a.MaxEdge.X < a.MinEdge.X || a.MaxEdge.Y < a.MinEdge.Y || a.MaxEdge.Z < a.MinEdge.Z

/-- Modelled from the spec: `addPoint` turns an empty area into the point and otherwise
    extends the box to include it. -/
def addPoint (a : VoxelArea) (p : V3 Int) : VoxelArea :=
  if a.hasEmptyExtent then ofPoint p
  else ⟨componentwise_min a.MinEdge p, componentwise_max a.MaxEdge p⟩

def contains (a : VoxelArea) (p : V3 Int) : Prop := a.MinEdge ≤ p ∧ p ≤ a.MaxEdge

theorem contains_iff_inBox (a : VoxelArea) (q : V3 Int) :
    a.contains q ↔ V3.InBox a.MinEdge a.MaxEdge q := by
  simp only [contains, V3.le_def, V3.InBox]
  tauto

theorem hasEmptyExtent_eq_false {a : VoxelArea} (nonempty : a.MinEdge ≤ a.MaxEdge) :
    a.hasEmptyExtent = false := by
  simp only [V3.le_def] at nonempty
  simp only [hasEmptyExtent, Bool.or_eq_false_iff, decide_eq_false_iff_not]
  omega

theorem addPoint_of_nonempty {a : VoxelArea} (nonempty : a.MinEdge ≤ a.MaxEdge) (p : V3 Int) :
    a.addPoint p = ⟨componentwise_min a.MinEdge p, componentwise_max a.MaxEdge p⟩ := by
  simp [addPoint, hasEmptyExtent_eq_false nonempty]

end VoxelArea

section Area
variable (MAP_BLOCKSIZE : Int)

def addBlock (a : VoxelArea) (p : V3 Int) : VoxelArea :=
  let np1 := p * MAP_BLOCKSIZE
  let np2 := np1 + (⟨1, 1, 1⟩ : V3 Int) * MAP_BLOCKSIZE - ⟨1, 1, 1⟩
  (a.addPoint np1).addPoint np2

def MapEditEvent.getArea (e : MapEditEvent) : VoxelArea :=
  match e.type with
  | .MEET_ADDNODE | .MEET_REMOVENODE | .MEET_SWAPNODE | .MEET_BLOCK_NODE_METADATA_CHANGED =>
    VoxelArea.ofPoint e.p
  | .MEET_OTHER => e.modified_blocks.foldl (addBlock MAP_BLOCKSIZE) {}

/-- `setPositionModified`: the position, and the block holding it marked as modified. Its
    assertion that no block is marked yet is a precondition of the lemmas below. -/
def MapEditEvent.setPositionModified (e : MapEditEvent) (pos : V3 Int) : MapEditEvent :=
  { e with p := pos, modified_blocks := e.modified_blocks ++ [getNodeBlockPos MAP_BLOCKSIZE pos] }

end Area

def MapEditEvent.setModifiedBlocks {B : Type} (e : MapEditEvent) (blocks : List (V3 Int × B)) :
    MapEditEvent :=
  { e with modified_blocks := e.modified_blocks ++ blocks.map Prod.fst }

/-- The area so far is the bounding box of the nodes of the blocks `bs`: its corners are
    the greatest lower and least upper bounds of the blocks' first and last nodes. -/
def BoundsBlocks (MAP_BLOCKSIZE : Int) (bs : List (V3 Int)) (a : VoxelArea) : Prop :=
  a.MinEdge ≤ a.MaxEdge ∧
    (∀ q, q ≤ a.MinEdge ↔ ∀ b ∈ bs, q ≤ b * MAP_BLOCKSIZE) ∧
    (∀ q, a.MaxEdge ≤ q ↔ ∀ b ∈ bs, b * MAP_BLOCKSIZE + V3.const (MAP_BLOCKSIZE - 1) ≤ q)

section Bounds
variable {MAP_BLOCKSIZE : Int}

theorem block_corners_le (positive : 0 < MAP_BLOCKSIZE) (b : V3 Int) :
    b * MAP_BLOCKSIZE ≤ b * MAP_BLOCKSIZE + V3.const (MAP_BLOCKSIZE - 1) := by
  simp only [V3.le_def, V3.mul_def, V3.add_def, V3.const]
  omega

theorem addBlock_eq (b : V3 Int) (a : VoxelArea) :
    addBlock MAP_BLOCKSIZE a b =
      (a.addPoint (b * MAP_BLOCKSIZE)).addPoint (b * MAP_BLOCKSIZE + V3.const (MAP_BLOCKSIZE - 1)) := by
  simp only [addBlock, V3.mul_def, V3.add_def, V3.sub_def, V3.const, one_mul]
  congr 3 <;> ring

theorem addBlock_empty (positive : 0 < MAP_BLOCKSIZE) (b : V3 Int) :
    addBlock MAP_BLOCKSIZE {} b = ⟨b * MAP_BLOCKSIZE, b * MAP_BLOCKSIZE + V3.const (MAP_BLOCKSIZE - 1)⟩ := by
  have corners := block_corners_le positive b
  have start : ({} : VoxelArea).addPoint (b * MAP_BLOCKSIZE) = .ofPoint (b * MAP_BLOCKSIZE) := by
    simp [VoxelArea.addPoint, VoxelArea.hasEmptyExtent]
  rw [addBlock_eq, start, VoxelArea.addPoint_of_nonempty le_rfl]
  simp only [VoxelArea.ofPoint, componentwise_min_eq_inf, componentwise_max_eq_sup,
    inf_eq_left.mpr corners, sup_eq_right.mpr corners]

theorem boundsBlocks_first (positive : 0 < MAP_BLOCKSIZE) (b : V3 Int) :
    BoundsBlocks MAP_BLOCKSIZE [b] (addBlock MAP_BLOCKSIZE {} b) := by
  rw [addBlock_empty positive]
  simp only [BoundsBlocks, List.mem_singleton, forall_eq, iff_self, implies_true, and_true]
  exact block_corners_le positive b

theorem boundsBlocks_step (positive : 0 < MAP_BLOCKSIZE) {bs : List (V3 Int)} {a : VoxelArea}
    (bounds : BoundsBlocks MAP_BLOCKSIZE bs a) (b : V3 Int) :
    BoundsBlocks MAP_BLOCKSIZE (bs ++ [b]) (addBlock MAP_BLOCKSIZE a b) := by
  obtain ⟨nonempty, lower, upper⟩ := bounds
  have corners := block_corners_le positive b
  have grown : a.MinEdge ⊓ b * MAP_BLOCKSIZE ≤ a.MaxEdge ⊔ b * MAP_BLOCKSIZE :=
    inf_le_left.trans (nonempty.trans le_sup_left)
  rw [addBlock_eq, VoxelArea.addPoint_of_nonempty nonempty,
    VoxelArea.addPoint_of_nonempty (by simpa using grown)]
  simp only [BoundsBlocks, componentwise_min_eq_inf, componentwise_max_eq_sup, List.mem_append,
    List.mem_singleton, or_imp, forall_and, forall_eq, le_inf_iff, sup_le_iff, lower, upper]
  refine ⟨le_trans ?_ (grown.trans le_sup_left), fun q => ?_, fun q => ?_⟩
  · exact inf_le_left
  · exact ⟨fun h => ⟨h.1.1, h.1.2⟩, fun h => ⟨⟨h.1, h.2⟩, h.2.trans corners⟩⟩
  · exact ⟨fun h => ⟨h.1.1, h.2⟩, fun h => ⟨⟨h.1, corners.trans h.2⟩, h.2⟩⟩

theorem boundsBlocks_foldl (positive : 0 < MAP_BLOCKSIZE) (rest : List (V3 Int)) :
    ∀ {bs : List (V3 Int)} {a : VoxelArea}, BoundsBlocks MAP_BLOCKSIZE bs a →
      BoundsBlocks MAP_BLOCKSIZE (bs ++ rest) (rest.foldl (addBlock MAP_BLOCKSIZE) a) := by
  induction rest with
  | nil => simp
  | cons b rest ih =>
    intro bs a bounds
    simpa using ih (boundsBlocks_step positive bounds b)

theorem getArea_other_bounds (positive : 0 < MAP_BLOCKSIZE) {e : MapEditEvent}
    (other : e.type = .MEET_OTHER) (some : e.modified_blocks ≠ []) :
    BoundsBlocks MAP_BLOCKSIZE e.modified_blocks (e.getArea MAP_BLOCKSIZE) := by
  obtain ⟨b, rest, listed⟩ := List.exists_cons_of_ne_nil some
  rw [MapEditEvent.getArea, other, listed, List.foldl_cons]
  exact boundsBlocks_foldl positive rest (boundsBlocks_first positive b)

theorem node_in_block (positive : 0 < MAP_BLOCKSIZE) (p : V3 Int) :
    getNodeBlockPos MAP_BLOCKSIZE p * MAP_BLOCKSIZE ≤ p ∧
      p ≤ getNodeBlockPos MAP_BLOCKSIZE p * MAP_BLOCKSIZE + V3.const (MAP_BLOCKSIZE - 1) := by
  have x := ediv_floorContainer p.X positive
  have y := ediv_floorContainer p.Y positive
  have z := ediv_floorContainer p.Z positive
  simp only [FloorContainer] at x y z
  simp only [getNodeBlockPos, V3.le_def, V3.mul_def, V3.add_def, V3.const]
  omega

theorem getArea_single {e : MapEditEvent} (single : e.type ≠ .MEET_OTHER) :
    e.getArea MAP_BLOCKSIZE = VoxelArea.ofPoint e.p := by
  unfold MapEditEvent.getArea
  cases h : e.type <;> simp_all

theorem boundsBlocks_covers {bs : List (V3 Int)} {a : VoxelArea}
    (bounds : BoundsBlocks MAP_BLOCKSIZE bs a) {b : V3 Int} (listed : b ∈ bs) {q : V3 Int}
    (low : b * MAP_BLOCKSIZE ≤ q) (high : q ≤ b * MAP_BLOCKSIZE + V3.const (MAP_BLOCKSIZE - 1)) :
    a.contains q :=
  ⟨((bounds.2.1 _).mp le_rfl b listed).trans low, high.trans ((bounds.2.2 _).mp le_rfl b listed)⟩

theorem boundsBlocks_unique {bs bs' : List (V3 Int)} (same : ∀ b, b ∈ bs ↔ b ∈ bs')
    {a a' : VoxelArea} (bounds : BoundsBlocks MAP_BLOCKSIZE bs a)
    (bounds' : BoundsBlocks MAP_BLOCKSIZE bs' a') : a = a' := by
  have listed (P : V3 Int → Prop) : (∀ b ∈ bs, P b) ↔ ∀ b ∈ bs', P b :=
    forall_congr' fun b => imp_congr_left (same b)
  obtain ⟨_, lower, upper⟩ := bounds
  obtain ⟨_, lower', upper'⟩ := bounds'
  have min : a.MinEdge = a'.MinEdge := le_antisymm
    ((lower' _).mpr ((listed _).mp ((lower _).mp le_rfl)))
    ((lower _).mpr ((listed _).mpr ((lower' _).mp le_rfl)))
  have max : a.MaxEdge = a'.MaxEdge := le_antisymm
    ((upper _).mpr ((listed _).mpr ((upper' _).mp le_rfl)))
    ((upper' _).mpr ((listed _).mp ((upper _).mp le_rfl)))
  cases a; cases a'
  simp only at min max
  rw [min, max]

/-- `modified_blocks` "represents a set": `getArea` reads only which blocks are listed, so
    reordering or repeating them leaves the area as it is. -/
theorem getArea_of_same_blocks (positive : 0 < MAP_BLOCKSIZE) (e : MapEditEvent)
    {blocks : List (V3 Int)} (same : ∀ b, b ∈ e.modified_blocks ↔ b ∈ blocks) :
    e.getArea MAP_BLOCKSIZE = { e with modified_blocks := blocks }.getArea MAP_BLOCKSIZE := by
  by_cases other : e.type = .MEET_OTHER
  · by_cases none : e.modified_blocks = []
    · have none' : blocks = [] :=
        List.eq_nil_iff_forall_not_mem.mpr fun b listed => by simpa [none] using (same b).mpr listed
      rw [MapEditEvent.getArea, MapEditEvent.getArea, none, none']
    · have some' : blocks ≠ [] := fun none' => none (List.eq_nil_iff_forall_not_mem.mpr
        fun b listed => by simpa [none'] using (same b).mp listed)
      exact boundsBlocks_unique same (getArea_other_bounds positive other none)
        (getArea_other_bounds (e := { e with modified_blocks := blocks }) positive other some')
  · rw [getArea_single other, getArea_single (e := { e with modified_blocks := blocks }) other]

theorem getArea_repeated_block :
    MapEditEvent.getArea 16 ⟨.MEET_OTHER, ⟨0, 0, 0⟩, [⟨1, 0, 0⟩, ⟨0, 2, 0⟩]⟩ =
      MapEditEvent.getArea 16 ⟨.MEET_OTHER, ⟨0, 0, 0⟩, [⟨0, 2, 0⟩, ⟨1, 0, 0⟩, ⟨0, 2, 0⟩]⟩ :=
  getArea_of_same_blocks (by norm_num) ⟨.MEET_OTHER, ⟨0, 0, 0⟩, [⟨1, 0, 0⟩, ⟨0, 2, 0⟩]⟩
    fun b => by simp only [List.mem_cons, List.mem_singleton]; tauto

end Bounds

/-- `getArea` is the least box covering the event: the node for a single-node event; for
    `MEET_OTHER` the empty area when no block is listed, and otherwise the box whose corners
    are the componentwise minimum of the blocks' first nodes and maximum of their last nodes. -/
theorem getArea_least_box (MAP_BLOCKSIZE : Int) (positive : 0 < MAP_BLOCKSIZE)
    (e : MapEditEvent) :
    (e.type ≠ .MEET_OTHER → e.getArea MAP_BLOCKSIZE = VoxelArea.ofPoint e.p) ∧
    (e.type = .MEET_OTHER → e.modified_blocks = [] →
      e.getArea MAP_BLOCKSIZE = {} ∧ ∀ q, ¬ (e.getArea MAP_BLOCKSIZE).contains q) ∧
    (e.type = .MEET_OTHER → e.modified_blocks ≠ [] →
      BoundsBlocks MAP_BLOCKSIZE e.modified_blocks (e.getArea MAP_BLOCKSIZE) ∧
        ∀ b ∈ e.modified_blocks, ∀ q, b * MAP_BLOCKSIZE ≤ q →
          q ≤ b * MAP_BLOCKSIZE + V3.const (MAP_BLOCKSIZE - 1) →
            (e.getArea MAP_BLOCKSIZE).contains q) := by
  refine ⟨getArea_single, fun other none => ?_, fun other some => ?_⟩
  · have empty : e.getArea MAP_BLOCKSIZE = {} := by
      rw [MapEditEvent.getArea, other, none, List.foldl_nil]
    refine ⟨empty, fun q inside => ?_⟩
    rw [empty] at inside
    have := le_trans inside.1 inside.2
    simp only [V3.le_def] at this
    omega
  · have bounds := getArea_other_bounds positive other some
    exact ⟨bounds, fun b listed q low high => boundsBlocks_covers bounds listed low high⟩

/-- What the two initialisers mark is covered: `setPositionModified` on a fresh `MEET_OTHER`
    event gives exactly the box of the block holding the position, and on a single-node event
    the node itself; `setModifiedBlocks` on a fresh `MEET_OTHER` event covers every node of
    every block of the map. -/
theorem mapEditEvent_initialisers_cover (MAP_BLOCKSIZE : Int) (positive : 0 < MAP_BLOCKSIZE)
    (e : MapEditEvent) (fresh : e.modified_blocks = []) :
    (∀ pos, e.type = .MEET_OTHER →
      (e.setPositionModified MAP_BLOCKSIZE pos).getArea MAP_BLOCKSIZE =
          ⟨getNodeBlockPos MAP_BLOCKSIZE pos * MAP_BLOCKSIZE,
            getNodeBlockPos MAP_BLOCKSIZE pos * MAP_BLOCKSIZE + V3.const (MAP_BLOCKSIZE - 1)⟩ ∧
        ((e.setPositionModified MAP_BLOCKSIZE pos).getArea MAP_BLOCKSIZE).contains pos) ∧
    (∀ pos, e.type ≠ .MEET_OTHER →
      (e.setPositionModified MAP_BLOCKSIZE pos).getArea MAP_BLOCKSIZE = VoxelArea.ofPoint pos) ∧
    (∀ {B : Type} (blocks : List (V3 Int × B)), e.type = .MEET_OTHER →
      ∀ b ∈ blocks.map Prod.fst, ∀ q, b * MAP_BLOCKSIZE ≤ q →
        q ≤ b * MAP_BLOCKSIZE + V3.const (MAP_BLOCKSIZE - 1) →
          ((e.setModifiedBlocks blocks).getArea MAP_BLOCKSIZE).contains q) := by
  refine ⟨fun pos other => ?_, fun pos single => getArea_single single,
    fun blocks other b listed q low high => ?_⟩
  · have area : (e.setPositionModified MAP_BLOCKSIZE pos).getArea MAP_BLOCKSIZE =
        addBlock MAP_BLOCKSIZE {} (getNodeBlockPos MAP_BLOCKSIZE pos) := by
      simp only [MapEditEvent.getArea, MapEditEvent.setPositionModified, other, fresh,
        List.nil_append, List.foldl_cons, List.foldl_nil]
    rw [area, addBlock_empty positive]
    exact ⟨rfl, node_in_block positive pos⟩
  · have marked : b ∈ (e.setModifiedBlocks blocks).modified_blocks := by
      simpa [MapEditEvent.setModifiedBlocks, fresh] using listed
    exact boundsBlocks_covers
      (getArea_other_bounds (e := e.setModifiedBlocks blocks) positive other (List.ne_nil_of_mem marked))
      marked low high

theorem inBox_self_iff (p q : V3 Int) : V3.InBox p p q ↔ q = p := by
  cases p
  cases q
  simp only [V3.InBox, V3.mk.injEq]
  omega

/-- A receiver that walks an event's area with `forEachNodeInArea` and a visitor that never
    stops visits every node of every block a `MEET_OTHER` event marks, with the node stored
    there, and for a single-node event exactly the event's node. -/
theorem getArea_walk_covers_event {N : Type} (MAP_BLOCKSIZE : Int) (positive : 0 < MAP_BLOCKSIZE)
    (map : Map N) (ignore : N) (e : MapEditEvent) {σ : Type} (func : σ → V3 Int → N → σ × Bool)
    (s : σ) (always : ∀ s p n, (func s p n).2 = true) :
    (e.type = .MEET_OTHER → ∀ b ∈ e.modified_blocks, ∀ q, b * MAP_BLOCKSIZE ≤ q →
      q ≤ b * MAP_BLOCKSIZE + V3.const (MAP_BLOCKSIZE - 1) →
        (q, nodeAt map MAP_BLOCKSIZE ignore q) ∈ visitorCalls map MAP_BLOCKSIZE ignore
          (e.getArea MAP_BLOCKSIZE).MinEdge (e.getArea MAP_BLOCKSIZE).MaxEdge func s) ∧
    (e.type ≠ .MEET_OTHER →
      visitorCalls map MAP_BLOCKSIZE ignore (e.getArea MAP_BLOCKSIZE).MinEdge
        (e.getArea MAP_BLOCKSIZE).MaxEdge func s = [(e.p, nodeAt map MAP_BLOCKSIZE ignore e.p)]) := by
  rw [visitorCalls_all_true _ _ _ _ _ func s always]
  refine ⟨fun other b marked q low high => ?_, fun single => ?_⟩
  · have inside := boundsBlocks_covers
      (getArea_other_bounds positive other (List.ne_nil_of_mem marked)) marked low high
    exact (mem_areaNodes positive q _).mpr ⟨(VoxelArea.contains_iff_inBox _ q).mp inside, rfl⟩
  · rw [getArea_single single]
    dsimp only [VoxelArea.ofPoint]
    have once : (areaNodes map MAP_BLOCKSIZE ignore e.p e.p).Nodup :=
      (areaNodes_positions_nodup positive).of_map
    rw [← List.perm_singleton, List.perm_ext_iff_of_nodup once (List.nodup_singleton _)]
    rintro ⟨q, n⟩
    rw [mem_areaNodes positive, List.mem_singleton, inBox_self_iff, Prod.mk.injEq]
    exact and_congr_right fun same => by rw [same]

theorem walk_single_node_event :
    let e : MapEditEvent := { type := .MEET_ADDNODE, p := ⟨2, 0, 3⟩ }
    visitorCalls oneBlockMap 16 (-1) (e.getArea 16).MinEdge (e.getArea 16).MaxEdge
      (fun s _ _ => (s, true)) () = [(⟨2, 0, 3⟩, 770)] :=
  (getArea_walk_covers_event 16 (by decide) oneBlockMap (-1) { type := .MEET_ADDNODE, p := ⟨2, 0, 3⟩ }
    (fun s _ _ => (s, true)) () (fun _ _ _ => rfl)).2 (by decide)

theorem setPositionModified_negative_node :
    ((({ p := ⟨0, 0, 0⟩ } : MapEditEvent).setPositionModified 16 ⟨-1, 5, 17⟩).getArea 16).contains
      ⟨-1, 5, 17⟩ :=
  ((mapEditEvent_initialisers_cover 16 (by decide) { p := ⟨0, 0, 0⟩ } rfl).1 ⟨-1, 5, 17⟩ rfl).2

theorem getArea_two_blocks :
    0 < (16 : Int) ∧
      let e : MapEditEvent := { p := ⟨0, 0, 0⟩, modified_blocks := [⟨-1, 0, 2⟩, ⟨1, 0, 0⟩] }
      BoundsBlocks 16 e.modified_blocks (e.getArea 16) :=
  ⟨by decide, ((getArea_least_box 16 (by decide) _).2.2 rfl (by simp)).1⟩

end NekoVoxel
