import Mathlib
import Ospray.Library.SortedSets

/-!
# Regions and their owners in the distributed renderer

Every collective commit of the distributed raycast renderer gives each rank a
fresh list of regions and lets the ranks tell each other about them. The list of
all regions is built anew, but the table of owners is only added to. It thus
names every rank that has ever held a region, and agrees with the last commit
exactly when no rank has given a region up.

Bounds are elements of a type `β` that the exchange copies without looking at
them; the identification number of a region is all that is compared.
-/

namespace Ospray

open Library.SortedSets

universe u
variable {β : Type u}

/-- `DistributedRegion`: the bounds of some data and the number that identifies it. -/
structure DistributedRegion (β : Type u) where
  bounds : β
  id : Int

/-- What region ownership needs of `DistributedRaycastRenderer`, on one rank. -/
structure DistributedRaycastRenderer (β : Type u) where
  regions : List (DistributedRegion β)
  allRegions : List (DistributedRegion β)
  /-- `regionOwners`; looking up an absent number gives the empty set. -/
  regionOwners : Int → SortedSet Nat

/-- A renderer that has never been committed. -/
def DistributedRaycastRenderer.initial : DistributedRaycastRenderer β :=
  { regions := [], allRegions := [], regionOwners := fun _ => .empty }

/-- `regionOwners[r.id].insert(i)` for each region of rank `i`. -/
def insertOwners (rank : Nat) (regions : List (DistributedRegion β))
    (owners : Int → SortedSet Nat) : Int → SortedSet Nat :=
  regions.foldl (fun owners region =>
    Function.update owners region.id ((owners region.id).insert rank)) owners

/-- One round of the exchange: rank `i` has told its regions. -/
def DistributedRaycastRenderer.receive (rank : Nat) (received : List (DistributedRegion β))
    (self : DistributedRaycastRenderer β) : DistributedRaycastRenderer β :=
  { self with
    allRegions := self.allRegions ++ received
    regionOwners := insertOwners rank received self.regionOwners }

/-- `std::unique`: of neighbours that compare equal only the first is kept. -/
def pruneRegions (regions : List (DistributedRegion β)) : List (DistributedRegion β) :=
  regions.destutter (fun a b => a.id ≠ b.id)

/-- `exchangeModelBounds` on one rank of `n`, where `sent i` is what rank `i`
broadcasts. Regions are sorted by number and pruned to one for each number;
`std::sort` leaves open which of them, here it is the one of the lowest rank. -/
def DistributedRaycastRenderer.exchangeModelBounds {n : Nat} (globalRank : Fin n)
    (sent : Fin n → List (DistributedRegion β)) (self : DistributedRaycastRenderer β) :
    DistributedRaycastRenderer β :=
  let exchanged := (List.finRange n).foldl (fun self i =>
    self.receive i.val (if i = globalRank then self.regions else sent i))
    { self with allRegions := [] }
  { exchanged with
    allRegions := pruneRegions (exchanged.allRegions.mergeSort (fun a b => a.id ≤ b.id)) }

/-- What a collective commit gives to each rank. -/
abbrev Commit (n : Nat) (β : Type u) := Fin n → List (DistributedRegion β)

/-- `commit` on one rank: take over its own regions, then exchange. -/
def DistributedRaycastRenderer.commit {n : Nat} (globalRank : Fin n) (supplied : Commit n β)
    (self : DistributedRaycastRenderer β) : DistributedRaycastRenderer β :=
  { self with regions := supplied globalRank }.exchangeModelBounds globalRank supplied

/-- The renderer of one rank after a sequence of collective commits. -/
def committed {n : Nat} (globalRank : Fin n) (history : List (Commit n β)) :
    DistributedRaycastRenderer β :=
  history.foldl (fun self supplied => self.commit globalRank supplied) .initial

/-- `regionTileOwner` in `renderFrame`: whether a rank that holds a region renders
it for a tile. -/
def DistributedRaycastRenderer.regionTileOwner (self : DistributedRaycastRenderer β)
    (globalRank : Nat) (id : Int) (tileIndex : Nat) : Bool :=
  let owners := self.regionOwners id
  tileIndex % owners.size == owners.position globalRank

/-- A rank is given a region of this number by a commit. -/
def Commit.Holds {n : Nat} (supplied : Commit n β) (rank : Fin n) (id : Int) : Prop :=
  ∃ region ∈ supplied rank, region.id = id

/-- Region ownership as rendering relies on it: on every rank, the owners of a
number are the ranks that hold it now, and each tile of a known region falls to
exactly one rank that holds it. -/
structure OwnershipFollows {n : Nat} (last : Commit n β)
    (world : Fin n → DistributedRaycastRenderer β) : Prop where
  owners : ∀ (observer : Fin n) (id : Int) (rank : Nat),
    rank ∈ (world observer).regionOwners id ↔ ∃ holder, holder.val = rank ∧ last.Holds holder id
  oneTileOwner : ∀ (observer : Fin n), ∀ region ∈ (world observer).allRegions,
    ∀ tileIndex : Nat, ∃! rank : Fin n,
      last.Holds rank region.id ∧ (world rank).regionTileOwner rank.val region.id tileIndex

/-- Inserting a rank's regions adds that rank to their owners, and nothing else. -/
theorem mem_insertOwners (rank : Nat) (regions : List (DistributedRegion β))
    (owners : Int → SortedSet Nat) (id : Int) (other : Nat) :
    other ∈ insertOwners rank regions owners id ↔
      other ∈ owners id ∨ other = rank ∧ ∃ region ∈ regions, region.id = id := by
  induction regions generalizing owners with
  | nil => simp [insertOwners]
  | cons head rest inductionHypothesis =>
    have unfolded : insertOwners rank (head :: rest) owners = insertOwners rank rest
        (Function.update owners head.id ((owners head.id).insert rank)) := rfl
    rw [unfolded, inductionHypothesis]
    by_cases same : id = head.id
    · subst same
      simp only [Function.update_self, mem_insert, List.mem_cons, exists_eq_or_imp, true_or]
      tauto
    · rw [Function.update_of_ne same]
      simp only [List.mem_cons, exists_eq_or_imp, Ne.symm same, false_or]

theorem rounds_regions {n : Nat} (globalRank : Fin n) (sent : Commit n β) (ranks : List (Fin n))
    (self : DistributedRaycastRenderer β) :
    (ranks.foldl (fun self i =>
      self.receive i.val (if i = globalRank then self.regions else sent i)) self).regions =
      self.regions := by
  induction ranks generalizing self with
  | nil => rfl
  | cons head rest inductionHypothesis => exact inductionHypothesis _

/-- What the rounds of an exchange collect: the regions each rank sent, and each
rank as an owner of the numbers it sent. A rank's own regions count as sent. -/
theorem rounds_collect {n : Nat} (globalRank : Fin n) (sent : Commit n β) (ranks : List (Fin n))
    (self : DistributedRaycastRenderer β) (own : self.regions = sent globalRank) :
    let after := ranks.foldl (fun self i =>
      self.receive i.val (if i = globalRank then self.regions else sent i)) self
    after.allRegions = self.allRegions ++ ranks.flatMap sent ∧
      ∀ id other, other ∈ after.regionOwners id ↔
        other ∈ self.regionOwners id ∨ ∃ rank ∈ ranks, rank.val = other ∧ sent.Holds rank id := by
  induction ranks generalizing self with
  | nil => simp
  | cons head rest inductionHypothesis =>
    have told : (if head = globalRank then self.regions else sent head) = sent head := by
      split
      · rename_i mine
        rw [own, mine]
      · rfl
    obtain ⟨regions, owners⟩ := inductionHypothesis (self.receive head.val (sent head)) own
    simp only [List.foldl_cons, told]
    refine ⟨?_, ?_⟩
    · rw [regions, List.flatMap_cons, ← List.append_assoc]
      rfl
    · intro id other
      rw [owners]
      simp only [DistributedRaycastRenderer.receive, mem_insertOwners, Commit.Holds,
        List.mem_cons, exists_eq_or_imp]
      rw [or_assoc, eq_comm]

/-- One commit: the owners grow by the ranks that hold a number now, and every
region in the list of all regions is held by some rank. -/
theorem commit_spec {n : Nat} (globalRank : Fin n) (supplied : Commit n β)
    (self : DistributedRaycastRenderer β) :
    (∀ id other, other ∈ (self.commit globalRank supplied).regionOwners id ↔
      other ∈ self.regionOwners id ∨ ∃ rank : Fin n, rank.val = other ∧ supplied.Holds rank id) ∧
      ∀ region ∈ (self.commit globalRank supplied).allRegions,
        ∃ rank, supplied.Holds rank region.id := by
  obtain ⟨regions, owners⟩ := rounds_collect globalRank supplied (List.finRange n)
    { self with regions := supplied globalRank, allRegions := [] } rfl
  refine ⟨?_, ?_⟩
  · intro id other
    simp only [List.mem_finRange, true_and] at owners
    exact owners id other
  · intro region listed
    have kept := (List.destutter_sublist _ _).subset listed
    rw [List.mem_mergeSort, regions, List.nil_append, List.mem_flatMap] at kept
    obtain ⟨rank, _, sent⟩ := kept
    exact ⟨rank, region, sent, rfl⟩

theorem committed_owners {n : Nat} (globalRank : Fin n) (history : List (Commit n β)) (id : Int)
    (other : Nat) :
    other ∈ (committed globalRank history).regionOwners id ↔
      ∃ supplied ∈ history, ∃ rank : Fin n, rank.val = other ∧ supplied.Holds rank id := by
  induction history using List.reverseRecOn with
  | nil => simp [committed, DistributedRaycastRenderer.initial]
  | append_singleton earlier last inductionHypothesis =>
    have step : committed globalRank (earlier ++ [last]) =
        (committed globalRank earlier).commit globalRank last := by
      simp [committed]
    rw [step, (commit_spec globalRank last _).1, inductionHypothesis]
    simp only [List.mem_append, List.mem_singleton, or_and_right, exists_or, exists_eq_left]

theorem committed_listed {n : Nat} (globalRank : Fin n) (earlier : List (Commit n β))
    (last : Commit n β) (region : DistributedRegion β)
    (listed : region ∈ (committed globalRank (earlier ++ [last])).allRegions) :
    ∃ rank, last.Holds rank region.id := by
  have step : committed globalRank (earlier ++ [last]) =
      (committed globalRank earlier).commit globalRank last := by
    simp [committed]
  rw [step] at listed
  exact (commit_spec globalRank last _).2 region listed

theorem committed_shared {n : Nat} (first second : Fin n) (history : List (Commit n β))
    (id : Int) :
    (committed first history).regionOwners id = (committed second history).regionOwners id := by
  refine sortedSet_ext ?_
  intro rank
  rw [committed_owners, committed_owners]

/-- Where the owners of a number are the ranks that hold it, and some rank does,
every tile has exactly one owner for it. -/
theorem oneTileOwner_of_owners {n : Nat} (last : Commit n β)
    (world : Fin n → DistributedRaycastRenderer β) (id : Int) (tileIndex : Nat)
    (shared : ∀ first second, (world first).regionOwners id = (world second).regionOwners id)
    (owners : ∀ observer rank, rank ∈ (world observer).regionOwners id ↔
      ∃ holder, holder.val = rank ∧ last.Holds holder id)
    (held : ∃ rank, last.Holds rank id) :
    ∃! rank : Fin n, last.Holds rank id ∧ (world rank).regionTileOwner rank.val id tileIndex := by
  obtain ⟨someone, holds⟩ := held
  have inhabited := size_positive ((owners someone someone.val).mpr ⟨someone, rfl, holds⟩)
  obtain ⟨chosen, ⟨member, turn⟩, unique⟩ := turn_unique inhabited tileIndex
  obtain ⟨holder, rfl, holderHolds⟩ := (owners someone chosen).mp member
  refine ⟨holder, ⟨holderHolds, ?_⟩, ?_⟩
  · simpa only [DistributedRaycastRenderer.regionTileOwner, shared holder someone, beq_iff_eq]
      using turn
  · rintro other ⟨otherHolds, otherTurn⟩
    simp only [DistributedRaycastRenderer.regionTileOwner, shared other someone,
      beq_iff_eq] at otherTurn
    exact Fin.ext (unique other.val
      ⟨(owners someone other.val).mpr ⟨other, rfl, otherHolds⟩, otherTurn⟩)

/-- Region ownership after a sequence of commits follows the last of them exactly
when every rank still holds each number it held before. What an earlier commit
gave a rank stays in the table of owners, so a number that was given up is the
only thing that can go wrong. -/
theorem ownership_follows_iff {n : Nat} (earlier : List (Commit n β)) (last : Commit n β) :
    OwnershipFollows last (fun rank => committed rank (earlier ++ [last])) ↔
      ∀ supplied ∈ earlier, ∀ rank id, supplied.Holds rank id → last.Holds rank id := by
  constructor
  · intro follows supplied before rank id held
    have listed : rank.val ∈ (committed rank (earlier ++ [last])).regionOwners id :=
      (committed_owners rank _ id _).mpr
        ⟨supplied, List.mem_append_left _ before, rank, rfl, held⟩
    obtain ⟨holder, same, holds⟩ := (follows.owners rank id rank.val).mp listed
    exact Fin.ext same ▸ holds
  · intro kept
    have owners : ∀ (observer : Fin n) (id : Int) (rank : Nat),
        rank ∈ (committed observer (earlier ++ [last])).regionOwners id ↔
          ∃ holder, holder.val = rank ∧ last.Holds holder id := by
      intro observer id rank
      rw [committed_owners]
      constructor
      · rintro ⟨supplied, sometime, holder, same, holds⟩
        rcases List.mem_append.mp sometime with before | now
        · exact ⟨holder, same, kept supplied before holder id holds⟩
        · exact ⟨holder, same, List.mem_singleton.mp now ▸ holds⟩
      · rintro ⟨holder, same, holds⟩
        exact ⟨last, List.mem_append_right _ (List.mem_singleton_self last), holder, same, holds⟩
    refine ⟨owners, ?_⟩
    intro observer region listed tileIndex
    exact oneTileOwner_of_owners last _ region.id tileIndex
      (fun first second => committed_shared first second _ region.id)
      (fun observer rank => owners observer region.id rank)
      (committed_listed observer earlier last region listed)

/-- After the region has moved, the table still names the rank that gave it up. -/
theorem ownership_stale_after_migration :
    ¬ OwnershipFollows (n := 2) (β := Unit) (fun rank => if rank = 0 then [] else [⟨(), 0⟩])
      (fun rank => committed rank
        [fun rank => if rank = 0 then [⟨(), 0⟩] else [],
          fun rank => if rank = 0 then [] else [⟨(), 0⟩]]) := by
  intro follows
  have listed := (committed_owners 0 ([fun rank => if rank = 0 then [⟨(), 0⟩] else [],
    fun rank => if rank = 0 then [] else [⟨(), 0⟩]] : List (Commit 2 Unit)) 0 0).mpr
      ⟨_, List.mem_cons_self, 0, rfl, ⟨⟨(), 0⟩, by simp, rfl⟩⟩
  obtain ⟨holder, same, holds⟩ := (follows.owners 0 0 0).mp listed
  obtain rfl : holder = 0 := Fin.ext same
  obtain ⟨region, held, _⟩ := holds
  simp at held

end Ospray
