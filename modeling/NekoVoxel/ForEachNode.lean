import NekoVoxel.Types
import Mathlib.Data.List.Nodup

/-!
`Map::forEachNodeInArea`: six nested `for` loops (blocks Z, X, Y, then nodes z, y, x)
whose body may `return` from the whole function. A loop is `forStop` over the visited
values; its flag turns `false` once the visitor asked to stop. The visitor is any
stateful closure `σ → V3 Int → N → σ × Bool`. The block store, `MAP_BLOCKSIZE` and the
placeholder node `MapNode(CONTENT_IGNORE)` are parameters: only their use is in the sources.
-/
namespace NekoVoxel
variable {α β σ N : Type}

def intRange (a b : Int) : List Int := (List.range (b + 1 - a).toNat).map fun i : Nat => a + i

/-- The in-block coordinates one axis of block `b` visits: `[minp - basep, maxp - basep]`
    clamped to `[0, MAP_BLOCKSIZE - 1]`. -/
def window (bs lo hi b : Int) : List Int :=
  intRange (rangelim (lo - b * bs) 0 (bs - 1)) (rangelim (hi - b * bs) 0 (bs - 1))

def forStop (xs : List α) (s : σ) (body : σ → α → σ × Bool) : σ × Bool :=
  match xs with
  | [] => (s, true)
  | x :: xs => match body s x with
    | (s', true) => forStop xs s' body
    | (s', false) => (s', false)

structure MapBlock (N : Type) where
  getNodeNoCheck : Int → Int → Int → N

structure Map (N : Type) where
  getBlockNoCreateNoEx : V3 Int → Option (MapBlock N)

/-- Modelled from the spec: `getNodeBlockPos` (mapblock.h, not in the sources) is the floor
    division of a node position by the block edge. -/
def getNodeBlockPos (MAP_BLOCKSIZE : Int) (p : V3 Int) : V3 Int :=
  ⟨p.X / MAP_BLOCKSIZE, p.Y / MAP_BLOCKSIZE, p.Z / MAP_BLOCKSIZE⟩

section Model
variable (map : Map N) (MAP_BLOCKSIZE : Int) (ignore : N)

/-- `block ? block->getNodeNoCheck(x, y, z) : MapNode(CONTENT_IGNORE)`. -/
def nodeOrIgnore (block : Option (MapBlock N)) (x y z : Int) : N :=
  match block with
  | some b => b.getNodeNoCheck x y z
  | none => ignore

def forEachNodeInArea (minp maxp : V3 Int) (func : σ → V3 Int → N → σ × Bool) (s : σ) : σ :=
  let bpmin := getNodeBlockPos MAP_BLOCKSIZE minp
  let bpmax := getNodeBlockPos MAP_BLOCKSIZE maxp
  (forStop (intRange bpmin.Z bpmax.Z) s fun s bz =>
  forStop (intRange bpmin.X bpmax.X) s fun s bx =>
  forStop (intRange bpmin.Y bpmax.Y) s fun s by' =>
    let bp : V3 Int := ⟨bx, by', bz⟩
    let block := map.getBlockNoCreateNoEx bp
    let basep := bp * MAP_BLOCKSIZE
    let minx_block := rangelim (minp.X - basep.X) 0 (MAP_BLOCKSIZE - 1)
    let miny_block := rangelim (minp.Y - basep.Y) 0 (MAP_BLOCKSIZE - 1)
    let minz_block := rangelim (minp.Z - basep.Z) 0 (MAP_BLOCKSIZE - 1)
    let maxx_block := rangelim (maxp.X - basep.X) 0 (MAP_BLOCKSIZE - 1)
    let maxy_block := rangelim (maxp.Y - basep.Y) 0 (MAP_BLOCKSIZE - 1)
    let maxz_block := rangelim (maxp.Z - basep.Z) 0 (MAP_BLOCKSIZE - 1)
    forStop (intRange minz_block maxz_block) s fun s z_block =>
    forStop (intRange miny_block maxy_block) s fun s y_block =>
    forStop (intRange minx_block maxx_block) s fun s x_block =>
      let p := basep + ⟨x_block, y_block, z_block⟩
      let n := nodeOrIgnore ignore block x_block y_block z_block
      func s p n).1

def blockRange (bpmin bpmax : V3 Int) : List (V3 Int) :=
  (intRange bpmin.Z bpmax.Z).flatMap fun bz =>
  (intRange bpmin.X bpmax.X).flatMap fun bx =>
  (intRange bpmin.Y bpmax.Y).map fun by' => ⟨bx, by', bz⟩

def blockNodes (minp maxp bp : V3 Int) : List (V3 Int × N) :=
  let block := map.getBlockNoCreateNoEx bp
  let basep := bp * MAP_BLOCKSIZE
  let minx_block := rangelim (minp.X - basep.X) 0 (MAP_BLOCKSIZE - 1)
  let miny_block := rangelim (minp.Y - basep.Y) 0 (MAP_BLOCKSIZE - 1)
  let minz_block := rangelim (minp.Z - basep.Z) 0 (MAP_BLOCKSIZE - 1)
  let maxx_block := rangelim (maxp.X - basep.X) 0 (MAP_BLOCKSIZE - 1)
  let maxy_block := rangelim (maxp.Y - basep.Y) 0 (MAP_BLOCKSIZE - 1)
  let maxz_block := rangelim (maxp.Z - basep.Z) 0 (MAP_BLOCKSIZE - 1)
  (intRange minz_block maxz_block).flatMap fun z_block =>
  (intRange miny_block maxy_block).flatMap fun y_block =>
  (intRange minx_block maxx_block).map fun x_block =>
    (basep + ⟨x_block, y_block, z_block⟩, nodeOrIgnore ignore block x_block y_block z_block)

def areaNodes (minp maxp : V3 Int) : List (V3 Int × N) :=
  (blockRange (getNodeBlockPos MAP_BLOCKSIZE minp) (getNodeBlockPos MAP_BLOCKSIZE maxp)).flatMap
    (blockNodes map MAP_BLOCKSIZE ignore minp maxp)

/-- What the spec promises at `p`: the node stored at `p`'s in-block offset of block
    `getNodeBlockPos p` when that block is loaded, the placeholder when it is not. -/
def nodeAt (p : V3 Int) : N :=
  let bp := getNodeBlockPos MAP_BLOCKSIZE p
  match map.getBlockNoCreateNoEx bp with
  | some block => block.getNodeNoCheck (p.X - bp.X * MAP_BLOCKSIZE) (p.Y - bp.Y * MAP_BLOCKSIZE)
      (p.Z - bp.Z * MAP_BLOCKSIZE)
  | none => ignore

end Model

theorem mem_intRange {a b x : Int} : x ∈ intRange a b ↔ a ≤ x ∧ x ≤ b := by
  simp only [intRange, List.mem_map, List.mem_range]
  constructor
  · rintro ⟨i, bound, rfl⟩
    omega
  · intro h
    exact ⟨(x - a).toNat, by omega, by omega⟩

theorem intRange_nodup (a b : Int) : (intRange a b).Nodup :=
  (List.nodup_range _).map fun i j h => by simpa using h

theorem forStop_append (xs ys : List α) (s : σ) (body : σ → α → σ × Bool) :
    forStop (xs ++ ys) s body =
      match forStop xs s body with
      | (s', true) => forStop ys s' body
      | (s', false) => (s', false) := by
  induction xs generalizing s with
  | nil => rfl
  | cons x xs ih =>
    simp only [List.cons_append, forStop]
    split <;> simp [ih]

theorem forStop_flatMap (xs : List α) (f : α → List β) (s : σ) (body : σ → β → σ × Bool) :
    forStop (xs.flatMap f) s body = forStop xs s fun s x => forStop (f x) s body := by
  induction xs generalizing s with
  | nil => rfl
  | cons x xs ih => simp only [List.flatMap_cons, forStop_append, forStop, ih]

theorem forStop_map (xs : List α) (g : α → β) (s : σ) (body : σ → β → σ × Bool) :
    forStop (xs.map g) s body = forStop xs s fun s x => body s (g x) := by
  induction xs generalizing s with
  | nil => rfl
  | cons x xs ih => simp only [List.map_cons, forStop, ih]

def callsStop (body : σ → α → σ × Bool) : σ → List α → List α
  | _, [] => []
  | s, x :: xs => x :: match body s x with
    | (s', true) => callsStop body s' xs
    | (_, false) => []

def answers (body : σ → α → σ × Bool) : σ → List α → List Bool
  | _, [] => []
  | s, x :: xs => (body s x).2 :: answers body (body s x).1 xs

def logged (body : σ → α → σ × Bool) (sl : σ × List α) (x : α) : (σ × List α) × Bool :=
  (((body sl.1 x).1, sl.2 ++ [x]), (body sl.1 x).2)

theorem forStop_logged (body : σ → α → σ × Bool) (xs : List α) (s : σ) (log : List α) :
    (forStop xs (s, log) (logged body)).1.2 = log ++ callsStop body s xs := by
  induction xs generalizing s log with
  | nil => simp [forStop, callsStop]
  | cons x xs ih =>
    simp only [forStop, logged, callsStop]
    rcases body s x with ⟨s', _ | _⟩ <;> simp [ih]

theorem callsStop_eq_take (body : σ → α → σ × Bool) (xs : List α) (s : σ) :
    callsStop body s xs = xs.take ((answers body s xs).indexOf false + 1) := by
  induction xs generalizing s with
  | nil => rfl
  | cons x xs ih =>
    simp only [callsStop, answers, List.indexOf_cons]
    rcases body s x with ⟨s', _ | _⟩ <;> simp [ih]

theorem answers_all_true (body : σ → α → σ × Bool) (always : ∀ s x, (body s x).2 = true)
    (xs : List α) (s : σ) : (answers body s xs).indexOf false = xs.length := by
  induction xs generalizing s with
  | nil => rfl
  | cons x xs ih => simp [answers, List.indexOf_cons, always, ih]

theorem forEachNodeInArea_eq_forStop (map : Map N) (MAP_BLOCKSIZE : Int) (ignore : N)
    (minp maxp : V3 Int) (func : σ → V3 Int → N → σ × Bool) (s : σ) :
    forEachNodeInArea map MAP_BLOCKSIZE ignore minp maxp func s =
      (forStop (areaNodes map MAP_BLOCKSIZE ignore minp maxp) s
        fun s pn => func s pn.1 pn.2).1 := by
  simp only [forEachNodeInArea, areaNodes, blockRange, blockNodes, forStop_flatMap, forStop_map]

def logVisitor (func : σ → V3 Int → N → σ × Bool) (sl : σ × List (V3 Int × N)) (p : V3 Int)
    (n : N) : (σ × List (V3 Int × N)) × Bool :=
  logged (fun s pn => func s pn.1 pn.2) sl (p, n)

def visitorCalls (map : Map N) (MAP_BLOCKSIZE : Int) (ignore : N) (minp maxp : V3 Int)
    (func : σ → V3 Int → N → σ × Bool) (s : σ) : List (V3 Int × N) :=
  (forEachNodeInArea map MAP_BLOCKSIZE ignore minp maxp (logVisitor func) (s, [])).2

theorem visitorCalls_eq_take (map : Map N) (MAP_BLOCKSIZE : Int) (ignore : N)
    (minp maxp : V3 Int) (func : σ → V3 Int → N → σ × Bool) (s : σ) :
    let nodes := areaNodes map MAP_BLOCKSIZE ignore minp maxp
    visitorCalls map MAP_BLOCKSIZE ignore minp maxp func s =
      nodes.take ((answers (fun s pn => func s pn.1 pn.2) s nodes).indexOf false + 1) := by
  intro nodes
  rw [visitorCalls, forEachNodeInArea_eq_forStop, ← callsStop_eq_take]
  exact forStop_logged _ _ s []

theorem visitorCalls_all_true (map : Map N) (MAP_BLOCKSIZE : Int) (ignore : N)
    (minp maxp : V3 Int) (func : σ → V3 Int → N → σ × Bool) (s : σ)
    (always : ∀ s p n, (func s p n).2 = true) :
    visitorCalls map MAP_BLOCKSIZE ignore minp maxp func s =
      areaNodes map MAP_BLOCKSIZE ignore minp maxp := by
  rw [visitorCalls_eq_take,
    answers_all_true (fun s (qn : V3 Int × N) => func s qn.1 qn.2)
      (fun s qn => always s qn.1 qn.2),
    List.take_of_length_le (by omega)]

theorem nodup_flatMap_keyed {xs : List α} {f : α → List β} (key : β → α) (nodup : xs.Nodup)
    (inner : ∀ x ∈ xs, (f x).Nodup) (keyed : ∀ x ∈ xs, ∀ y ∈ f x, key y = x) :
    (xs.flatMap f).Nodup :=
  List.nodup_flatMap.mpr ⟨inner, nodup.imp_of_mem fun ha hb ne y hya hyb =>
    ne ((keyed _ ha y hya).symm.trans (keyed _ hb y hyb))⟩

theorem mem_blockRange {bpmin bpmax bp : V3 Int} :
    bp ∈ blockRange bpmin bpmax ↔ V3.InBox bpmin bpmax bp := by
  simp only [blockRange, List.mem_flatMap, List.mem_map, mem_intRange, V3.InBox]
  constructor
  · rintro ⟨bz, hz, bx, hx, by', hy, rfl⟩
    exact ⟨hx.1, hx.2, hy.1, hy.2, hz.1, hz.2⟩
  · rintro ⟨x1, x2, y1, y2, z1, z2⟩
    exact ⟨bp.Z, ⟨z1, z2⟩, bp.X, ⟨x1, x2⟩, bp.Y, ⟨y1, y2⟩, rfl⟩

theorem blockRange_nodup (bpmin bpmax : V3 Int) : (blockRange bpmin bpmax).Nodup := by
  apply nodup_flatMap_keyed V3.Z (intRange_nodup _ _)
  · intro bz _
    apply nodup_flatMap_keyed V3.X (intRange_nodup _ _)
    · intro bx _
      exact (intRange_nodup _ _).map fun _ _ same => by simpa using same
    · intro bx _ bp member
      obtain ⟨_, _, rfl⟩ := List.mem_map.mp member
      rfl
  · intro bz _ bp member
    simp only [List.mem_flatMap, List.mem_map] at member
    obtain ⟨_, _, _, _, rfl⟩ := member
    rfl

/-- The sectors (`X, Z` columns of blocks, the unit of the map's one-entry sector cache) the
    outer loops pass through, in order. -/
def sectorRange (bpmin bpmax : V3 Int) : List (Int × Int) :=
  (intRange bpmin.Z bpmax.Z).flatMap fun bz => (intRange bpmin.X bpmax.X).map fun bx => (bx, bz)

theorem sectorRange_nodup (bpmin bpmax : V3 Int) : (sectorRange bpmin bpmax).Nodup := by
  apply nodup_flatMap_keyed Prod.snd (intRange_nodup _ _)
  · exact fun bz _ => (intRange_nodup _ _).map fun _ _ same => by simpa using same
  · intro bz _ sector member
    obtain ⟨_, _, rfl⟩ := List.mem_map.mp member
    rfl

theorem blockRange_eq_sectors (bpmin bpmax : V3 Int) :
    blockRange bpmin bpmax = (sectorRange bpmin bpmax).flatMap fun sector =>
      (intRange bpmin.Y bpmax.Y).map fun by' => ⟨sector.1, by', sector.2⟩ := by
  simp only [blockRange, sectorRange, List.flatMap_assoc, List.flatMap_map, Function.comp_def]

section Axis
variable {bs : Int}

theorem window_bounds {lo hi b x : Int} (positive : 0 < bs) (member : x ∈ window bs lo hi b) :
    0 ≤ x ∧ x < bs := by
  have low := rangelim_bounds (d := lo - b * bs) (by omega : (0 : Int) ≤ bs - 1)
  have high := rangelim_bounds (d := hi - b * bs) (by omega : (0 : Int) ≤ bs - 1)
  rw [window, mem_intRange] at member
  omega

theorem block_ediv {b x : Int} (positive : 0 < bs) (low : 0 ≤ x) (high : x < bs) :
    (b * bs + x) / bs = b := by
  rw [add_comm, mul_comm, Int.add_mul_ediv_left _ _ positive.ne', Int.ediv_eq_zero_of_lt low high,
    zero_add]

theorem axis_cover {lo hi q : Int} (positive : 0 < bs) :
    (∃ b, (lo / bs ≤ b ∧ b ≤ hi / bs) ∧ ∃ x ∈ window bs lo hi b, b * bs + x = q) ↔
      lo ≤ q ∧ q ≤ hi := by
  constructor
  · rintro ⟨b, ⟨low, high⟩, x, member, rfl⟩
    have first := Int.mul_le_mul_of_nonneg_right low positive.le
    have last := Int.mul_le_mul_of_nonneg_right high positive.le
    have below := Int.lt_ediv_add_one_mul_self lo positive
    have above := Int.ediv_mul_le hi positive.ne'
    have start : lo - b * bs < bs := by linarith
    have stop : 0 ≤ hi - b * bs := by linarith
    rw [window, mem_intRange] at member
    unfold rangelim at member
    split_ifs at member <;> omega
  · rintro ⟨low, high⟩
    have below := Int.ediv_mul_le q positive.ne'
    have above := Int.lt_ediv_add_one_mul_self q positive
    refine ⟨q / bs, ⟨Int.ediv_le_ediv positive low, Int.ediv_le_ediv positive high⟩,
      q - q / bs * bs, ?_, by ring⟩
    rw [window, mem_intRange]
    unfold rangelim
    split_ifs <;> constructor <;> linarith

end Axis

section Enumeration
variable {map : Map N} {bs : Int} {ignore : N} {minp maxp : V3 Int}

theorem mem_blockNodes {bp : V3 Int} {qn : V3 Int × N} :
    qn ∈ blockNodes map bs ignore minp maxp bp ↔
      ∃ z ∈ window bs minp.Z maxp.Z bp.Z, ∃ y ∈ window bs minp.Y maxp.Y bp.Y,
        ∃ x ∈ window bs minp.X maxp.X bp.X,
          qn = (⟨bp.X * bs + x, bp.Y * bs + y, bp.Z * bs + z⟩,
            nodeOrIgnore ignore (map.getBlockNoCreateNoEx bp) x y z) := by
  simp only [blockNodes, window, List.mem_flatMap, List.mem_map, V3.mul_def, V3.add_def]
  simp only [eq_comm]

theorem blockNodes_block (positive : 0 < bs) {bp : V3 Int} {qn : V3 Int × N}
    (member : qn ∈ blockNodes map bs ignore minp maxp bp) :
    getNodeBlockPos bs qn.1 = bp := by
  obtain ⟨z, hz, y, hy, x, hx, rfl⟩ := mem_blockNodes.mp member
  have ox := window_bounds positive hx
  have oy := window_bounds positive hy
  have oz := window_bounds positive hz
  simp only [getNodeBlockPos, block_ediv positive ox.1 ox.2, block_ediv positive oy.1 oy.2,
    block_ediv positive oz.1 oz.2]

theorem blockNodes_positions_nodup (bp : V3 Int) :
    ((blockNodes map bs ignore minp maxp bp).map Prod.fst).Nodup := by
  simp only [blockNodes, List.map_flatMap, List.map_map]
  apply nodup_flatMap_keyed (fun q => q.Z - bp.Z * bs) (intRange_nodup _ _)
  · intro z _
    apply nodup_flatMap_keyed (fun q => q.Y - bp.Y * bs) (intRange_nodup _ _)
    · intro y _
      exact (intRange_nodup _ _).map fun _ _ same => by simpa using same
    · intro y _ q member
      obtain ⟨_, _, rfl⟩ := List.mem_map.mp member
      simp
  · intro z _ q member
    simp only [List.mem_flatMap, List.mem_map] at member
    obtain ⟨_, _, _, _, rfl⟩ := member
    simp

theorem mem_areaNodes_positions (positive : 0 < bs) (p : V3 Int) :
    p ∈ (areaNodes map bs ignore minp maxp).map Prod.fst ↔ V3.InBox minp maxp p := by
  simp only [areaNodes, List.mem_map, List.mem_flatMap, mem_blockRange, mem_blockNodes,
    getNodeBlockPos, V3.InBox]
  constructor
  · rintro ⟨_, ⟨bp, ⟨x1, x2, y1, y2, z1, z2⟩, z, hz, y, hy, x, hx, rfl⟩, rfl⟩
    have X := (axis_cover positive).mp ⟨bp.X, ⟨x1, x2⟩, x, hx, rfl⟩
    have Y := (axis_cover positive).mp ⟨bp.Y, ⟨y1, y2⟩, y, hy, rfl⟩
    have Z := (axis_cover positive).mp ⟨bp.Z, ⟨z1, z2⟩, z, hz, rfl⟩
    exact ⟨X.1, X.2, Y.1, Y.2, Z.1, Z.2⟩
  · rintro ⟨x1, x2, y1, y2, z1, z2⟩
    obtain ⟨bx, hbx, x, hx, ex⟩ := (axis_cover positive).mpr ⟨x1, x2⟩
    obtain ⟨by', hby, y, hy, ey⟩ := (axis_cover positive).mpr ⟨y1, y2⟩
    obtain ⟨bz, hbz, z, hz, ez⟩ := (axis_cover positive).mpr ⟨z1, z2⟩
    exact ⟨_, ⟨⟨bx, by', bz⟩, ⟨hbx.1, hbx.2, hby.1, hby.2, hbz.1, hbz.2⟩, z, hz, y, hy, x, hx,
      rfl⟩, by rw [ex, ey, ez]⟩

theorem areaNodes_positions_nodup (positive : 0 < bs) :
    ((areaNodes map bs ignore minp maxp).map Prod.fst).Nodup := by
  rw [areaNodes, List.map_flatMap]
  exact nodup_flatMap_keyed (getNodeBlockPos bs) (blockRange_nodup _ _)
    (fun bp _ => blockNodes_positions_nodup bp)
    (fun bp _ q member => by
      obtain ⟨qn, hqn, rfl⟩ := List.mem_map.mp member
      exact blockNodes_block positive hqn)

theorem areaNodes_node (positive : 0 < bs) {qn : V3 Int × N}
    (member : qn ∈ areaNodes map bs ignore minp maxp) : qn.2 = nodeAt map bs ignore qn.1 := by
  obtain ⟨bp, _, hqn⟩ := List.mem_flatMap.mp member
  have block := blockNodes_block positive hqn
  obtain ⟨z, _, y, _, x, _, rfl⟩ := mem_blockNodes.mp hqn
  simp only [nodeAt, block, add_sub_cancel_left]
  cases map.getBlockNoCreateNoEx bp <;> rfl

theorem areaNodes_eq_nil (positive : 0 < bs) (empty : ∀ p, ¬ V3.InBox minp maxp p) :
    areaNodes map bs ignore minp maxp = [] :=
  List.eq_nil_iff_forall_not_mem.mpr fun qn member =>
    empty qn.1 ((mem_areaNodes_positions positive qn.1).mp (List.mem_map_of_mem _ member))

theorem mem_areaNodes (positive : 0 < bs) (q : V3 Int) (n : N) :
    (q, n) ∈ areaNodes map bs ignore minp maxp ↔ V3.InBox minp maxp q ∧ n = nodeAt map bs ignore q := by
  constructor
  · intro member
    exact ⟨(mem_areaNodes_positions positive q).mp (List.mem_map_of_mem Prod.fst member),
      areaNodes_node positive member⟩
  · rintro ⟨box, rfl⟩
    have listed : q ∈ (areaNodes map bs ignore minp maxp).map Prod.fst :=
      (mem_areaNodes_positions positive q).mpr box
    obtain ⟨⟨q', n'⟩, member, rfl⟩ := List.mem_map.mp listed
    rw [← areaNodes_node positive member]
    exact member

end Enumeration

/-- What `forEachNodeInArea` promises for the box `minp .. maxp`, over its enumeration
    `nodes`: every position of the box once and no other, each with the node stored there
    or the placeholder, and a visitor's calls ending right after its first `false`. -/
structure VisitsBox (map : Map N) (MAP_BLOCKSIZE : Int) (ignore : N) (minp maxp : V3 Int)
    (nodes : List (V3 Int × N)) : Prop where
  covers : ∀ p, p ∈ nodes.map Prod.fst ↔ V3.InBox minp maxp p
  once : (nodes.map Prod.fst).Nodup
  stored : ∀ qn ∈ nodes, qn.2 = nodeAt map MAP_BLOCKSIZE ignore qn.1
  empty : (minp.X > maxp.X ∨ minp.Y > maxp.Y ∨ minp.Z > maxp.Z) →
    ∀ {σ : Type} (func : σ → V3 Int → N → σ × Bool) (s : σ),
      visitorCalls map MAP_BLOCKSIZE ignore minp maxp func s = []
  all_true : ∀ {σ : Type} (func : σ → V3 Int → N → σ × Bool) (s : σ),
    (∀ s p n, (func s p n).2 = true) →
      visitorCalls map MAP_BLOCKSIZE ignore minp maxp func s = nodes
  stops : ∀ {σ : Type} (func : σ → V3 Int → N → σ × Bool) (s : σ),
    visitorCalls map MAP_BLOCKSIZE ignore minp maxp func s =
      nodes.take ((answers (fun s qn => func s qn.1 qn.2) s nodes).indexOf false + 1)

theorem forEachNodeInArea_visits_box (MAP_BLOCKSIZE : Int) (positive : 0 < MAP_BLOCKSIZE)
    (map : Map N) (ignore : N) (minp maxp : V3 Int) :
    VisitsBox map MAP_BLOCKSIZE ignore minp maxp (areaNodes map MAP_BLOCKSIZE ignore minp maxp) where
  covers := mem_areaNodes_positions positive
  once := areaNodes_positions_nodup positive
  stored _ := areaNodes_node positive
  empty inverted {σ} func s := by
    have none : ∀ p, ¬ V3.InBox minp maxp p := fun p box => by
      simp only [V3.InBox] at box
      omega
    rw [visitorCalls_eq_take, areaNodes_eq_nil positive none, List.take_nil]
  all_true {σ} func s always := visitorCalls_all_true map MAP_BLOCKSIZE ignore minp maxp func s always
  stops {σ} func s := visitorCalls_eq_take map MAP_BLOCKSIZE ignore minp maxp func s

def oneBlockMap : Map Int :=
  ⟨fun bp => if bp = ⟨0, 0, 0⟩ then some ⟨fun x y z => x + 16 * y + 256 * z⟩ else none⟩

theorem visits_box_across_block_boundary :
    0 < (16 : Int) ∧ VisitsBox oneBlockMap 16 (-1) ⟨-1, 0, 0⟩ ⟨0, 1, 1⟩
      (areaNodes oneBlockMap 16 (-1) ⟨-1, 0, 0⟩ ⟨0, 1, 1⟩) :=
  ⟨by decide, forEachNodeInArea_visits_box 16 (by decide) _ _ _ _⟩

example : areaNodes oneBlockMap 16 (-1) ⟨-1, 0, 0⟩ ⟨0, 1, 1⟩ =
    [(⟨-1, 0, 0⟩, -1), (⟨-1, 1, 0⟩, -1), (⟨-1, 0, 1⟩, -1), (⟨-1, 1, 1⟩, -1),
      (⟨0, 0, 0⟩, 0), (⟨0, 1, 0⟩, 16), (⟨0, 0, 1⟩, 256), (⟨0, 1, 1⟩, 272)] := by
  decide

/-- With `Y` the innermost block loop, a visitor's calls come sector by sector: they are a
    prefix of the sectors' runs of `Y` blocks, each sector once, each block's calls the nodes of
    that block. -/
theorem forEachNodeInArea_by_sector (MAP_BLOCKSIZE : Int) (positive : 0 < MAP_BLOCKSIZE)
    (map : Map N) (ignore : N) (minp maxp : V3 Int) {σ : Type} (func : σ → V3 Int → N → σ × Bool)
    (s : σ) :
    let bpmin := getNodeBlockPos MAP_BLOCKSIZE minp
    let bpmax := getNodeBlockPos MAP_BLOCKSIZE maxp
    visitorCalls map MAP_BLOCKSIZE ignore minp maxp func s <+:
        (sectorRange bpmin bpmax).flatMap (fun sector =>
          (intRange bpmin.Y bpmax.Y).flatMap fun by' =>
            blockNodes map MAP_BLOCKSIZE ignore minp maxp ⟨sector.1, by', sector.2⟩) ∧
      (sectorRange bpmin bpmax).Nodup ∧
      ∀ bp, ∀ qn ∈ blockNodes map MAP_BLOCKSIZE ignore minp maxp bp,
        getNodeBlockPos MAP_BLOCKSIZE qn.1 = bp := by
  intro bpmin bpmax
  refine ⟨?_, sectorRange_nodup bpmin bpmax, fun bp qn member => blockNodes_block positive member⟩
  rw [visitorCalls_eq_take]
  simp only [areaNodes, blockRange_eq_sectors, List.flatMap_assoc, List.flatMap_map]
  exact List.take_prefix _ _

theorem visits_by_sector_two_columns :
    let bpmin := getNodeBlockPos 16 ⟨-1, 0, 0⟩
    let bpmax := getNodeBlockPos 16 ⟨0, 20, 0⟩
    visitorCalls oneBlockMap 16 (-1) ⟨-1, 0, 0⟩ ⟨0, 20, 0⟩ (fun s _ _ => (s, true)) () <+:
        (sectorRange bpmin bpmax).flatMap (fun sector =>
          (intRange bpmin.Y bpmax.Y).flatMap fun by' =>
            blockNodes oneBlockMap 16 (-1) ⟨-1, 0, 0⟩ ⟨0, 20, 0⟩ ⟨sector.1, by', sector.2⟩) ∧
      (sectorRange bpmin bpmax).Nodup ∧
      ∀ bp, ∀ qn ∈ blockNodes oneBlockMap 16 (-1) ⟨-1, 0, 0⟩ ⟨0, 20, 0⟩ bp,
        getNodeBlockPos 16 qn.1 = bp :=
  forEachNodeInArea_by_sector 16 (by decide) _ _ _ _ _ _

end NekoVoxel
