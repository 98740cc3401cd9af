import Proxeus.Lib.Grouping
import Proxeus.Promclient.MergeSeriesSet

/-!
# Promclient.CrossGroupDedup

`cross_group_dedup.go` and the statistics of `promhttputil/dedup.go`: the series of several server
groups, of which those that agree after removing the ignored labels are one series reported more
than once. The group with the lowest ordinal wins.
-/

namespace Proxeus

namespace Promhttputil

/-- `DedupStats`, its map as a function that is `0` where there is no entry. -/
@[ext] structure DedupStats where
  collisions : Nat
  pairs : Int × Int → Nat

namespace DedupStats

def empty : DedupStats := ⟨0, fun _ => 0⟩

def record (s : DedupStats) (winner loser : Int) : DedupStats where
  collisions := s.collisions + 1
  pairs p := if p = (winner, loser) then s.pairs p + 1 else s.pairs p

end DedupStats

end Promhttputil

namespace Promclient

open Lib Promhttputil

/-- `ordinalSeriesSet` -/
structure OrdinalSeriesSet where
  ordinal : Int
  ss : SeriesSet
deriving DecidableEq

structure DedupGapOpts where
  fillGaps : Bool
  gap : Int

structure DedupBucketMember where
  ordinal : Int
  series : Series
deriving DecidableEq

/-- `entry` -/
structure DedupEntry where
  lbls : Labels
  ordinal : Int
  idx : Nat
  losers : List Int
  members : List DedupBucketMember

/-- The variables of the loop over the sets. The map is kept in the order of its insertions. -/
structure DedupState (Key : Type*) where
  buckets : List (Key × DedupEntry)
  result : List Series

section

variable {Key : Type*} [DecidableEq Key] (bytesWithoutLabels : Labels → List String → Key)

/-- One turn of the inner loop: `series`, of the set `ordinal`. -/
def dedupSeries (ignore : List String) (fillGaps : Bool) (st : DedupState Key) (ordinal : Int)
    (series : Series) : DedupState Key :=
  let buf := bytesWithoutLabels series.labels ignore
  let member : List DedupBucketMember := if fillGaps then [⟨ordinal, series⟩] else []
  match st.buckets.find? fun p => p.1 = buf with
  | none =>
    { buckets := st.buckets ++ [(buf, ⟨series.labels, ordinal, st.result.length, [], member⟩)]
      result := st.result ++ [series] }
  | some (_, existing) =>
    let put (e : DedupEntry) := st.buckets.map fun p => if p.1 = buf then (p.1, e) else p
    if existing.lbls = series.labels then st
    else if ordinal < existing.ordinal then
      { buckets := put
          { lbls := series.labels, ordinal, idx := existing.idx
            losers := existing.losers ++ [existing.ordinal]
            members := existing.members ++ member }
        result := st.result.set existing.idx series }
    else
      { st with
        buckets := put
          { existing with
            losers := existing.losers ++ [ordinal]
            members := existing.members ++ member } }

/-- The loop over the sets; it ends at the first one that has an error. -/
def dedupSets (ignore : List String) (fillGaps : Bool) :
    DedupState Key → List OrdinalSeriesSet → Except BackendError (DedupState Key)
  | st, [] => .ok st
  | st, set :: sets =>
    let st := set.ss.series.foldl
      (fun st series => dedupSeries bytesWithoutLabels ignore fillGaps st set.ordinal series) st
    match set.ss.err with
    | some err => .error err
    | none => dedupSets ignore fillGaps st sets

end

variable [Prometheus]

section

/-! The sort of the source, `sort.Slice`, leaves the order of equal ordinals open: it is a
parameter, and the functions under the source's own names take the stable one. -/

variable (sortSlice : List DedupBucketMember → List DedupBucketMember)

/-- `fillBucketGaps`. It is not called without members. -/
def fillBucketGapsBy (members : List DedupBucketMember) (gap : Int) : Series :=
  match sortSlice members with
  | [] => ⟨Labels.empty, []⟩
  | first :: rest =>
    let base := seriesToSampleStream first.series
    let fillers := rest.map fun m => seriesToSampleStream m.series
    let threshold := gapThreshold gap base fillers.head?
    let merged := (priorityMergeSampleStream base fillers threshold).1
    sampleStreamToSeries merged first.series.labels

/-- The turn of the last loop for one bucket. -/
def settleBucketBy (opts : DedupGapOpts) (r : List Series × DedupStats) (e : DedupEntry) :
    List Series × DedupStats :=
  let stats := e.losers.foldl (fun stats loser => stats.record e.ordinal loser) r.2
  if opts.fillGaps && 1 < e.members.length then
    (r.1.set e.idx (fillBucketGapsBy sortSlice e.members opts.gap), stats)
  else (r.1, stats)

def dedupSeriesSetsFillGapsBy {Key : Type*} [DecidableEq Key]
    (bytesWithoutLabels : Labels → List String → Key) (sets : List OrdinalSeriesSet)
    (ignore : List String) (opts : DedupGapOpts) (stats : DedupStats) : SeriesSet × DedupStats :=
  match sets with
  | [set] => (set.ss, stats)
  | sets =>
    match dedupSets bytesWithoutLabels ignore opts.fillGaps ⟨[], []⟩ sets with
    | .error err => (⟨[], ∅, some err⟩, stats)
    | .ok st =>
      let r := (st.buckets.map Prod.snd).foldl (settleBucketBy sortSlice opts) (st.result, stats)
      (⟨r.1, ∅, none⟩, r.2)

end

def fillBucketGaps : List DedupBucketMember → Int → Series :=
  fillBucketGapsBy (sortBy DedupBucketMember.ordinal)

def dedupSeriesSetsFillGaps {Key : Type*} [DecidableEq Key]
    (bytesWithoutLabels : Labels → List String → Key) (sets : List OrdinalSeriesSet)
    (ignore : List String) (opts : DedupGapOpts) (stats : DedupStats) : SeriesSet × DedupStats :=
  dedupSeriesSetsFillGapsBy (sortBy DedupBucketMember.ordinal) bytesWithoutLabels sets ignore opts
    stats

/-- `dedupSeriesSets` -/
def dedupSeriesSets {Key : Type*} [DecidableEq Key]
    (bytesWithoutLabels : Labels → List String → Key) (sets : List OrdinalSeriesSet)
    (ignore : List String) (stats : DedupStats) : SeriesSet × DedupStats :=
  dedupSeriesSetsFillGaps bytesWithoutLabels sets ignore ⟨false, 0⟩ stats

end Promclient
end Proxeus
