/- What the indexes of a set of points hold after any calls. -/

import Zumic.Database.GeoSet

namespace Zumic.Database.Geo

open Lib Lib.ByteString Lib.Utf8

/-- The calls that change a set; a search by radius may rebuild its indexes. -/
inductive GeoCall where
  | add (member : Str) (point : GeoPoint)
  | rebuildIndex
  | radius (center : GeoPoint) (radius : ℚ) (options : RadiusOptions)

def GeoSet.apply (sphere : Sphere) (set : GeoSet) : GeoCall → GeoSet
  | .add member point => set.add member point
  | .rebuildIndex => set.rebuildIndex
  | .radius center radius options => (set.radiusWithOptions sphere center radius options).2

def GeoSet.after (sphere : Sphere) (calls : List GeoCall) : GeoSet :=
  calls.foldl (GeoSet.apply sphere) .new

/-- What was said about the members: the last point of each, and whether a member was moved, or
given again at all, since the indexes were rebuilt. -/
structure History where
  points : List (Str × GeoPoint)
  moved : Bool
  again : Bool

namespace History

def new : History := ⟨[], false, false⟩

/-- Indexes are rebuilt only when some member was moved. -/
def rebuilt (h : History) : History := if h.moved then ⟨h.points, false, false⟩ else h

def add (h : History) (member : Str) (point : GeoPoint) : History :=
  if point.valid then
    ⟨Assoc.insert h.points member point,
      h.moved || (Assoc.get h.points member).any fun old => decide (old ≠ point),
      h.again || (Assoc.get h.points member).isSome⟩
  else h

def next (h : History) : GeoCall → History
  | .add member point => h.add member point
  | .rebuildIndex => h.rebuilt
  | .radius center _ _ => if center.valid then h.rebuilt else h

def of (calls : List GeoCall) : History := calls.foldl next new

end History

/-- Every member at most once, with the distance of its last point. -/
structure Reports (sphere : Sphere) (points : List (Str × GeoPoint)) (center : GeoPoint)
    (results : List (Str × ℚ)) : Prop where
  once : (results.map Prod.fst).Nodup
  current : ∀ r ∈ results, ∃ point, Assoc.get points r.1 = some point ∧
    r.2 = sphere.haversineDistance center point

/-- The queries tell what was said. -/
structure GeoSet.Follows (sphere : Sphere) (points : List (Str × GeoPoint)) (set : GeoSet) :
    Prop where
  len : set.len = points.length
  radius : ∀ center radius options, options.useGeohash = false →
    Reports sphere points center (set.radiusWithOptions sphere center radius options).1
  bboxQuery : ∀ bbox, (set.bboxQuery bbox).Nodup ∧ ∀ member ∈ set.bboxQuery bbox,
    ∃ point, Assoc.get points member = some point ∧ bbox.containsPoint point = true
  nearest : ∀ point k, Reports sphere points point (set.nearest sphere point k)
  nearestLen : ∀ point k, point.valid = true →
    (set.nearest sphere point k).length = min k points.length
  nearestByMember : ∀ member k point, Assoc.get points member = some point →
    ∃ results, set.nearestByMember sphere member k = some results ∧
      Reports sphere points point results

/-- How the indexes of a set stand to its history. -/
structure GeoSet.Agrees (h : History) (set : GeoSet) : Prop where
  members : set.memberIndex = h.points
  distinct : (Assoc.keys h.points).Nodup
  flag : set.needsRebuild = h.moved
  tree : ∃ stale, set.rtree.Holds (h.points.map entryAt ++ stale) ∧ (stale = [] ↔ h.again = false)
  cells : (set.geohashIndex.flatMap Prod.snd).Perm (Assoc.keys h.points)

section

variable {h : History} {set : GeoSet}

theorem members_indexMember (index : List (Bytes × List Str)) (p : Str × GeoPoint) :
    ((indexMember index p).flatMap Prod.snd).Perm (p.1 :: index.flatMap Prod.snd) := by
  unfold indexMember
  generalize cellOf p.2 = cell
  induction index with
  | nil => exact List.Perm.refl _
  | cons q index ih =>
      by_cases here : q.1 = cell
      · rw [Assoc.insert, Assoc.get, if_pos here, if_pos here, Option.getD_some]
        rw [List.flatMap_cons, List.flatMap_cons, List.append_assoc]
        exact List.perm_middle
      · rw [Assoc.insert, Assoc.get, if_neg here, if_neg here, List.flatMap_cons, List.flatMap_cons]
        exact (ih.append_left q.2).trans List.perm_middle

theorem members_foldl_indexMember (points : List (Str × GeoPoint))
    (index : List (Bytes × List Str)) :
    ((points.foldl indexMember index).flatMap Prod.snd).Perm
      (Assoc.keys points ++ index.flatMap Prod.snd) := by
  induction points generalizing index with
  | nil => exact List.Perm.refl _
  | cons p points ih =>
      rw [List.foldl_cons, Assoc.keys_cons, List.cons_append]
      exact (ih (indexMember index p)).trans
        (((members_indexMember index p).append_left _).trans List.perm_middle)

/-- The entry of a known member stays in the tree beside the new one. -/
theorem entries_known {points : List (Str × GeoPoint)} (distinct : (Assoc.keys points).Nodup)
    {member : Str} {old : GeoPoint} (known : Assoc.get points member = some old)
    (point : GeoPoint) (stale : List GeoEntry) :
    (entryAt (member, point) :: (points.map entryAt ++ stale)).Perm
      ((Assoc.insert points member point).map entryAt ++ entryAt (member, old) :: stale) := by
  obtain ⟨after, listed, erased⟩ := Assoc.split_of_get distinct known
  have before : points.Perm ((member, old) :: Assoc.erase points member) := by
    rw [erased]
    conv_lhs => rw [listed]
    exact List.perm_middle
  have inserted := (Assoc.insert_perm_cons distinct member point).map entryAt
  apply List.perm_iff_count.mpr
  intro e
  have counted := (before.map entryAt).count_eq e
  have counted' := inserted.count_eq e
  simp only [List.map_cons, List.count_cons, List.count_append] at counted counted' ⊢
  omega

theorem GeoSet.Agrees.add (agrees : set.Agrees h) (member : Str) (point : GeoPoint) :
    (set.add member point).Agrees (h.add member point) := by
  unfold GeoSet.add History.add
  by_cases valid : point.valid = true
  · rw [if_pos valid, if_pos valid]
    obtain ⟨members, distinct, flag, ⟨stale, holds, exact⟩, cells⟩ := agrees
    have inserted := holds.insert (entryAt (member, point))
    have unique := Assoc.nodup_keys_insert distinct member point
    unfold GeoSet.get
    rw [members]
    cases known : Assoc.get h.points member with
    | some old =>
        refine ⟨rfl, unique, by rw [flag]; rfl, ⟨entryAt (member, old) :: stale, ?_, ?_⟩, ?_⟩
        · exact inserted.of_perm (entries_known distinct known point stale)
        · exact iff_of_false (List.cons_ne_nil _ _) (by simp)
        · have same : (Assoc.keys (Assoc.insert h.points member point)).Perm
              (Assoc.keys h.points) := by
            apply (List.perm_ext_iff_of_nodup unique distinct).mpr
            intro other
            have inside : member ∈ Assoc.keys h.points :=
              Assoc.mem_keys_iff_isSome.mpr (by rw [known]; rfl)
            rw [Assoc.mem_keys_insert]
            exact ⟨fun either => either.elim (fun same => same ▸ inside) id, Or.inr⟩
          exact cells.trans same.symm
    | none =>
        have fresh := Assoc.get_eq_none_iff.mp known
        have last := Assoc.insert_of_not_mem fresh point
        refine ⟨rfl, unique, by rw [flag]; simp, ⟨stale, ?_, ?_⟩, ?_⟩
        · refine inserted.of_perm ?_
          rw [last, List.map_append, List.append_assoc]
          exact List.perm_middle.symm
        · rw [exact]
          simp
        · refine (members_indexMember set.geohashIndex (member, point)).trans ?_
          rw [last, Assoc.keys, List.map_append]
          exact (cells.cons member).trans (List.perm_append_singleton member _).symm
  · rw [if_neg valid, if_neg valid]
    exact agrees

theorem GeoSet.Agrees.rebuildIndex (agrees : set.Agrees h) :
    set.rebuildIndex.Agrees h.rebuilt := by
  unfold GeoSet.rebuildIndex History.rebuilt
  rw [agrees.flag]
  cases moved : h.moved with
  | false => exact agrees
  | true =>
      rw [if_pos rfl, if_pos rfl, agrees.members]
      refine ⟨rfl, agrees.distinct, rfl, ⟨[], ?_, iff_of_true rfl rfl⟩, ?_⟩
      · rw [List.append_nil]
        exact RTree.holds_bulkLoad _
      · have all := members_foldl_indexMember h.points []
        rw [List.flatMap_nil, List.append_nil] at all
        exact all

theorem GeoSet.radiusWithOptions_snd (sphere : Sphere) (set : GeoSet) (center : GeoPoint)
    (radius : ℚ) (options : RadiusOptions) :
    (set.radiusWithOptions sphere center radius options).2 =
      if center.valid then set.rebuildIndex else set := by
  unfold GeoSet.radiusWithOptions
  by_cases valid : center.valid = true
  · rw [if_pos valid, if_pos valid]
    by_cases useGeohash : options.useGeohash = true
    · rw [if_pos useGeohash]
    · rw [if_neg useGeohash]
  · rw [if_neg valid, if_neg valid]

theorem GeoSet.agrees_new : GeoSet.Agrees .new .new :=
  ⟨rfl, List.nodup_nil, rfl, ⟨[], RTree.holds_new, iff_of_true rfl rfl⟩, List.Perm.refl _⟩

theorem GeoSet.Agrees.apply (agrees : set.Agrees h) (sphere : Sphere) (call : GeoCall) :
    (set.apply sphere call).Agrees (h.next call) := by
  cases call with
  | add member point => exact agrees.add member point
  | rebuildIndex => exact agrees.rebuildIndex
  | radius center radius options =>
      unfold GeoSet.apply History.next
      dsimp only
      rw [GeoSet.radiusWithOptions_snd]
      by_cases valid : center.valid = true
      · rw [if_pos valid, if_pos valid]
        exact agrees.rebuildIndex
      · rw [if_neg valid, if_neg valid]
        exact agrees

theorem GeoSet.agrees_after (sphere : Sphere) (calls : List GeoCall) :
    (GeoSet.after sphere calls).Agrees (History.of calls) := by
  suffices all : ∀ (set : GeoSet) (h : History), set.Agrees h →
      (calls.foldl (GeoSet.apply sphere) set).Agrees (calls.foldl History.next h) from
    all .new .new GeoSet.agrees_new
  induction calls with
  | nil => exact fun set h agrees => agrees
  | cons call calls ih => exact fun set h agrees => ih _ _ (agrees.apply sphere call)

end

theorem generateRanges_spec (missing : Nat) (hash : Bytes) :
    (generateRanges missing hash).Nodup ∧ ∀ range ∈ generateRanges missing hash,
      hash <+: range ∧ range.length = hash.length + missing := by
  induction missing generalizing hash with
  | zero =>
      refine ⟨List.nodup_singleton hash, fun range member => ?_⟩
      rw [List.mem_singleton.mp member]
      exact ⟨List.prefix_rfl, rfl⟩
  | succ missing ih =>
      unfold generateRanges
      constructor
      · apply List.nodup_flatMap.mpr
        refine ⟨fun ch _ => (ih (hash ++ [ch])).1, ?_⟩
        have digits : base32.Nodup := by decide
        refine digits.imp fun {ch ch'} other => ?_
        intro range first second
        have left := ((ih (hash ++ [ch])).2 range first).1
        have right := ((ih (hash ++ [ch'])).2 range second).1
        have short : (hash ++ [ch]).length ≤ (hash ++ [ch']).length := by simp
        have same := (List.prefix_of_prefix_length_le left right short).eq_of_length (by simp)
        exact other (List.singleton_inj.mp (List.append_cancel_left same))
      · intro range member
        obtain ⟨ch, _, inside⟩ := List.mem_flatMap.mp member
        obtain ⟨starts, count⟩ := (ih (hash ++ [ch])).2 range inside
        refine ⟨(List.prefix_append hash [ch]).trans starts, ?_⟩
        rw [count, List.length_append, List.length_singleton]
        omega

theorem geohashRangesForBbox_spec (bbox : BoundingBox) (precision : GeohashPrecision) :
    (geohashRangesForBbox bbox precision).Nodup ∧
      ∃ n, ∀ range ∈ geohashRangesForBbox bbox precision, range.length = n := by
  have single : ∀ hash : Bytes, [hash].Nodup ∧ ∃ n, ∀ range ∈ [hash], range.length = n :=
    fun hash => ⟨List.nodup_singleton hash, hash.length, fun range member => by
      rw [List.mem_singleton.mp member]⟩
  unfold geohashRangesForBbox
  dsimp only
  split
  · exact single _
  · split
    · exact single _
    · have spec := fun missing hash => generateRanges_spec missing hash
      exact ⟨(spec _ _).1, _, fun range member => ((spec _ _).2 range member).2⟩

section

variable {set : GeoSet} (bbox : BoundingBox)

theorem GeoSet.mem_membersIn {range : Bytes} {member : Str} :
    member ∈ set.membersIn bbox range ↔ ∃ cell ∈ set.geohashIndex, range <+: cell.1 ∧
      member ∈ cell.2 ∧ set.locatedIn bbox member = true := by
  unfold GeoSet.membersIn
  rw [List.mem_flatMap]
  apply exists_congr
  intro cell
  apply and_congr_right
  intro _
  by_cases starts : range.isPrefixOf cell.1 = true
  · rw [if_pos starts, List.mem_filter]
    exact ⟨fun inside => ⟨List.isPrefixOf_iff_prefix.mp starts, inside⟩, And.right⟩
  · rw [if_neg starts]
    refine iff_of_false List.not_mem_nil ?_
    rintro ⟨starts', _⟩
    exact starts (List.isPrefixOf_iff_prefix.mpr starts')

theorem GeoSet.nodup_membersIn (once : (set.geohashIndex.flatMap Prod.snd).Nodup) (range : Bytes) :
    (set.membersIn bbox range).Nodup := by
  refine List.Sublist.nodup (List.Sublist.flatMap_right _ fun cell _ => ?_) once
  split
  · exact List.filter_sublist
  · exact List.nil_sublist _

/-- A member is in one cell, so that it is found through one range at most. -/
theorem GeoSet.nodup_bboxQuery (once : (set.geohashIndex.flatMap Prod.snd).Nodup) :
    (set.bboxQuery bbox).Nodup := by
  obtain ⟨distinct, n, lengths⟩ := geohashRangesForBbox_spec bbox .medium
  unfold GeoSet.bboxQuery
  apply List.nodup_flatMap.mpr
  refine ⟨fun range _ => set.nodup_membersIn bbox once range, ?_⟩
  apply List.Pairwise.imp_of_mem _ distinct
  intro range range' inside inside' other member first second
  obtain ⟨cell, listed, starts, found, _⟩ := (GeoSet.mem_membersIn bbox).mp first
  obtain ⟨cell', listed', starts', found', _⟩ := (GeoSet.mem_membersIn bbox).mp second
  have same : cell = cell' := by
    by_contra different
    have apart := (List.nodup_flatMap.mp once).2
    have symmetric : Std.Symm (Function.onFun List.Disjoint (Prod.snd : Bytes × List Str → _)) :=
      ⟨fun _ _ disjoint => disjoint.symm⟩
    exact apart.forall listed listed' different found found'
  subst same
  have lengths' := (lengths range inside).trans (lengths range' inside').symm
  exact other ((List.prefix_of_prefix_length_le starts starts' (le_of_eq lengths')).eq_of_length
    lengths')

theorem GeoSet.bboxQuery_current {points : List (Str × GeoPoint)}
    (members : set.memberIndex = points) {member : Str} (reported : member ∈ set.bboxQuery bbox) :
    ∃ point, Assoc.get points member = some point ∧ bbox.containsPoint point = true := by
  obtain ⟨range, _, inside⟩ := List.mem_flatMap.mp reported
  obtain ⟨_, _, _, _, located⟩ := (GeoSet.mem_membersIn bbox).mp inside
  unfold GeoSet.locatedIn GeoSet.get at located
  rw [members] at located
  exact Option.any_eq_true _ _ |>.mp located

end

section

variable {sphere : Sphere} {points : List (Str × GeoPoint)} {center : GeoPoint}

theorem Reports.sublist {results results' : List (Str × ℚ)}
    (reports : Reports sphere points center results) (fewer : results'.Sublist results) :
    Reports sphere points center results' :=
  ⟨(fewer.map Prod.fst).nodup reports.once, fun r member => reports.current r (fewer.subset member)⟩

theorem reports_of_found (distinct : (Assoc.keys points).Nodup) {found : List (GeoEntry × ℚ)}
    {others : List GeoEntry} (all : (found.map Prod.fst ++ others).Perm (points.map entryAt))
    (dist : ∀ r ∈ found, r.2 = sphere.haversineDistance center r.1.point) :
    Reports sphere points center (found.map fun r => (r.1.member, r.2)) := by
  constructor
  · have members := all.map GeoEntry.member
    rw [List.map_append, List.map_map, List.map_map] at members
    have unique : (points.map (GeoEntry.member ∘ entryAt)).Nodup := distinct
    have once := (List.nodup_append.mp (members.nodup_iff.mpr unique)).1
    rw [List.map_map]
    exact once
  · intro r member
    obtain ⟨pair, inside, rfl⟩ := List.mem_map.mp member
    have listed := all.subset (List.mem_append_left others (List.mem_map_of_mem inside))
    obtain ⟨p, known, same⟩ := List.mem_map.mp listed
    have read := Assoc.get_of_mem distinct known
    refine ⟨p.2, ?_, ?_⟩
    · have name : pair.1.member = p.1 := by rw [← same]; rfl
      rw [name]
      exact read
    · have place : pair.1.point = p.2 := by rw [← same]; rfl
      rw [dist pair inside, place]

theorem filterMap_within (radius : ℚ) (candidates : List GeoEntry) :
    candidates.filterMap (fun e => GeoSet.within sphere center radius e.member e.point) =
      ((candidates.filter fun e => sphere.haversineDistance center e.point ≤ radius).map
        fun e => (e, sphere.haversineDistance center e.point)).map
          fun r => (r.1.member, r.2) := by
  induction candidates with
  | nil => rfl
  | cons e rest ih =>
      rw [List.filterMap_cons, List.filter_cons]
      unfold GeoSet.within at ih ⊢
      by_cases near : sphere.haversineDistance center e.point ≤ radius
      · rw [if_pos near, if_pos (decide_eq_true near), List.map_cons, List.map_cons]
        exact congrArg _ ih
      · rw [if_neg near, if_neg (by simpa using near)]
        exact ih

end

section

variable {sphere : Sphere} {h : History} {set : GeoSet}

/-- Without a member that was given again, the tree holds the members and nothing else. -/
theorem GeoSet.Agrees.exact (agrees : set.Agrees h) (once : h.again = false) :
    set.rtree.Holds (h.points.map entryAt) := by
  obtain ⟨stale, holds, exact⟩ := agrees.tree
  rw [exact.mpr once, List.append_nil] at holds
  exact holds

theorem GeoSet.Agrees.nearest (agrees : set.Agrees h) (once : h.again = false)
    (point : GeoPoint) (k : Nat) :
    Reports sphere h.points point (set.nearest sphere point k) := by
  unfold GeoSet.nearest
  split
  · exact ⟨List.nodup_nil, fun r member => by cases member⟩
  · obtain ⟨dropped, all, _, found⟩ := (agrees.exact once).knn sphere point k
    exact reports_of_found agrees.distinct all found

theorem GeoSet.Agrees.nearestByMember (agrees : set.Agrees h) (once : h.again = false)
    {member : Str} {point : GeoPoint} (known : Assoc.get h.points member = some point) (k : Nat) :
    ∃ results, set.nearestByMember sphere member k = some results ∧
      Reports sphere h.points point results := by
  unfold GeoSet.nearestByMember GeoSet.get
  rw [agrees.members, known]
  refine ⟨_, rfl, (agrees.nearest once point (k + 1)).sublist ?_⟩
  exact (List.take_sublist _ _).trans List.filter_sublist

theorem GeoSet.Agrees.radius (agrees : set.Agrees h) (once : h.again = false)
    (center : GeoPoint) (radius : ℚ) {options : RadiusOptions}
    (tree : options.useGeohash = false) :
    Reports sphere h.points center (set.radiusWithOptions sphere center radius options).1 := by
  unfold GeoSet.radiusWithOptions
  split
  · rw [tree, if_neg Bool.false_ne_true]
    have rebuilt := agrees.rebuildIndex
    have same : h.rebuilt.points = h.points ∧ h.rebuilt.again = false := by
      unfold History.rebuilt
      split
      · exact ⟨rfl, rfl⟩
      · exact ⟨rfl, once⟩
    have found := (rebuilt.exact same.2).rangeQuery (radiusToBbox sphere center radius)
    rw [same.1] at found
    dsimp only
    rw [filterMap_within]
    have near := found.filter fun e => sphere.haversineDistance center e.point ≤ radius
    have firsts : ∀ candidates : List GeoEntry, (candidates.map fun e =>
        (e, sphere.haversineDistance center e.point)).map Prod.fst = candidates := by
      intro candidates
      rw [List.map_map]
      exact List.map_id _
    have part : ∃ others, ((set.rebuildIndex.rtree.rangeQuery (radiusToBbox sphere center radius)
        |>.filter fun e => sphere.haversineDistance center e.point ≤ radius) ++ others).Perm
        (h.points.map entryAt) := by
      obtain ⟨others, split⟩ := (List.filter_sublist.trans List.filter_sublist :
        List.Sublist _ (h.points.map entryAt)).exists_perm_append
      exact ⟨others, (near.append_right others).trans split.symm⟩
    obtain ⟨others, split⟩ := part
    refine @reports_of_found _ _ _ agrees.distinct _ others ?_ ?_
    · rw [firsts]
      exact split
    · intro r member
      obtain ⟨e, _, rfl⟩ := List.mem_map.mp member
      rfl
  · exact ⟨List.nodup_nil, fun r member => by cases member⟩

theorem GeoSet.Agrees.length_nearest (sphere : Sphere) (agrees : set.Agrees h) {point : GeoPoint}
    (valid : point.valid = true) (k : Nat) :
    (set.nearest sphere point k).length = min k set.rtree.size := by
  obtain ⟨stale, holds, _⟩ := agrees.tree
  unfold GeoSet.nearest
  split
  · rename_i none
    have zero : k = 0 := none.resolve_left fun invalid => invalid valid
    rw [zero, Nat.zero_min, List.length_nil]
  · obtain ⟨_, _, count, _⟩ := holds.knn sphere point k
    rw [List.length_map, count, ← holds.size]

theorem GeoSet.Agrees.size (agrees : set.Agrees h) :
    set.rtree.size = h.points.length ↔ h.again = false := by
  obtain ⟨stale, holds, exact⟩ := agrees.tree
  rw [← exact, holds.size, List.length_append, List.length_map, ← List.length_eq_zero_iff]
  omega

theorem GeoSet.Agrees.follows_iff (agrees : set.Agrees h) :
    set.Follows sphere h.points ↔ h.again = false := by
  constructor
  · intro follows
    apply agrees.size.mp
    have valid : (GeoPoint.mk 0 0).valid = true := by decide
    have count := agrees.length_nearest sphere valid set.rtree.size
    rw [follows.nearestLen _ _ valid, Nat.min_self] at count
    obtain ⟨stale, holds, _⟩ := agrees.tree
    have more := holds.size
    rw [List.length_append, List.length_map] at more
    omega
  · intro once
    have members := agrees.members
    have unique := agrees.cells.nodup_iff.mpr agrees.distinct
    refine ⟨congrArg List.length members, ?_, ?_, ?_, ?_, ?_⟩
    · exact fun center radius options tree => agrees.radius once center radius tree
    · exact fun bbox => ⟨GeoSet.nodup_bboxQuery bbox unique, fun member reported =>
        GeoSet.bboxQuery_current bbox members reported⟩
    · exact fun point k => agrees.nearest once point k
    · intro point k valid
      rw [agrees.length_nearest sphere valid, agrees.size.mpr once]
    · exact fun member k point known => agrees.nearestByMember once known k

end

/-- The indexes follow the calls exactly when no known member was given again, moved or not, since
they were last rebuilt. -/
theorem GeoSet.follows_iff_not_again (sphere : Sphere) (calls : List GeoCall) :
    (GeoSet.after sphere calls).Follows sphere (History.of calls).points ↔
      (History.of calls).again = false :=
  (GeoSet.agrees_after sphere calls).follows_iff

/-- Distances of a flat world. -/
def flat : Sphere where
  haversineDistance p q := |q.lon - p.lon| + |q.lat - p.lat|
  sqrt x := x
  cos _ := 1
  nonneg _ _ := add_nonneg (abs_nonneg _) (abs_nonneg _)
  self p := by rw [sub_self, sub_self, abs_zero, add_zero]

/-- A member given twice at one point, after which the index is asked to be rebuilt. -/
def givenTwice : List GeoCall :=
  [.add (Str.lit "a") ⟨0, 0⟩, .add (Str.lit "a") ⟨0, 0⟩, .rebuildIndex]

/-- It is its own two nearest neighbours. -/
theorem GeoSet.givenTwice_nearest :
    ((GeoSet.after flat givenTwice).nearest flat ⟨0, 0⟩ 2).length = 2 ∧
      (GeoSet.after flat givenTwice).len = 1 ∧
      ¬ (GeoSet.after flat givenTwice).Follows flat (History.of givenTwice).points := by
  have agrees := GeoSet.agrees_after flat givenTwice
  have again : (History.of givenTwice).again = true := by decide
  have valid : (GeoPoint.mk 0 0).valid = true := by decide
  refine ⟨?_, ?_, ?_⟩
  · rw [agrees.length_nearest flat valid]
    rfl
  · exact congrArg List.length agrees.members
  · rw [agrees.follows_iff, again]
    exact Bool.noConfusion

end Zumic.Database.Geo
