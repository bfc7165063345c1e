import VoxServer.Net.Paths
import VoxServer.Text.Percent

/-! # Query parameters

A client percent-encodes the values of a query. The server cuts the query at its
separators and finds every value under its key, but it does not decode the value. So
a value comes back as it was exactly if there was nothing to encode in it, and the cursors
of the envelope listings never do.
-/

namespace VoxServer.Http

variable {path : String} {pairs : List (String × List UInt8)}

def encodePair (p : String × List UInt8) : List Char :=
  p.1.toList ++ '=' :: Text.percentEncode p.2

def buildTarget (path : String) (pairs : List (String × List UInt8)) : String :=
  path ++ "?" ++ String.ofList (['&'].intercalate (pairs.map encodePair))

def isKeyChar (c : Char) : Bool := c.isAlpha ∨ c = '_'

/-- The value as the server holds it. -/
def ofBytes (value : List UInt8) : String := String.ofList (Text.ofBytes value)

theorem not_mem_encodePair {p : String × List UInt8} (hp : ∀ c ∈ p.1.toList, isKeyChar c) :
    '&' ∉ encodePair p := by
  rw [encodePair, List.mem_append, List.mem_cons]
  rintro (h | h | h)
  · exact absurd (hp _ h) (by decide)
  · exact absurd h (by decide)
  · exact absurd (Text.mem_percentEncode h) (by decide)

theorem splitAtFirst_encodePair {p : String × List UInt8}
    (hp : ∀ c ∈ p.1.toList, isKeyChar c) :
    Text.splitAtFirst '=' (encodePair p) = some (p.1.toList, Text.percentEncode p.2) := by
  apply Text.splitAtFirst_append
  intro h
  exact absurd (hp _ h) (by decide)

theorem queryPairs_buildTarget (hpath : '?' ∉ path.toList)
    (hkeys : ∀ p ∈ pairs, ∀ c ∈ p.1.toList, isKeyChar c) :
    queryPairs (buildTarget path pairs) =
      pairs.map fun p => (p.1, String.ofList (Text.percentEncode p.2)) := by
  have htarget : (buildTarget path pairs).toList =
      path.toList ++ '?' :: ['&'].intercalate (pairs.map encodePair) := by
    simp [buildTarget]
  rw [queryPairs, htarget, Text.splitAtFirst_append hpath]
  cases hne : pairs with
  | nil => simp [Text.splitAtFirst]
  | cons q qs =>
    rw [← hne]
    have hsplit : (['&'].intercalate (pairs.map encodePair)).splitOn '&' =
        pairs.map encodePair := by
      apply List.splitOn_intercalate
      · intro l hl
        obtain ⟨p, hp, rfl⟩ := List.mem_map.mp hl
        exact not_mem_encodePair (hkeys p hp)
      · simp [hne]
    simp only [hsplit, List.filterMap_map]
    rw [← List.filterMap_eq_map]
    apply List.filterMap_congr
    intro p hp
    simp [splitAtFirst_encodePair (hkeys p hp)]

theorem queryParam_buildTarget (hpath : '?' ∉ path.toList)
    (hkeys : ∀ p ∈ pairs, ∀ c ∈ p.1.toList, isKeyChar c) (hnd : (pairs.map Prod.fst).Nodup)
    {p : String × List UInt8} (hp : p ∈ pairs) :
    queryParam (buildTarget path pairs) p.1 = some (String.ofList (Text.percentEncode p.2)) := by
  have hu : Table.UniqueOn Prod.fst pairs := hnd
  have hfind : pairs.find? (fun q => decide (q.1 = p.1)) = some p :=
    hu.find?_eq_some hp (by simp) fun q _ hq => by simpa using hq
  rw [queryParam, queryPairs_buildTarget hpath hkeys, List.find?_map]
  simp only [Function.comp_def]
  rw [hfind]
  rfl

/-- Every value is received as it was sent exactly if none of them has a byte to encode. -/
theorem received_iff_unreserved (path : String) (pairs : List (String × List UInt8))
    (hpath : '?' ∉ path.toList) (hkeys : ∀ p ∈ pairs, ∀ c ∈ p.1.toList, isKeyChar c)
    (hnd : (pairs.map Prod.fst).Nodup) :
    (∀ p ∈ pairs, queryParam (buildTarget path pairs) p.1 = some (ofBytes p.2)) ↔
      ∀ p ∈ pairs, ∀ b ∈ p.2, Text.isUnreserved (Char.ofUInt8 b) := by
  refine forall₂_congr fun p hp => ?_
  rw [queryParam_buildTarget hpath hkeys hnd hp, ofBytes, Option.some_inj, String.ofList_inj,
    Text.percentEncode_eq_ofBytes]

theorem cursor_not_received (hpath : '?' ∉ path.toList)
    (hkeys : ∀ p ∈ pairs, ∀ c ∈ p.1.toList, isKeyChar c) (hnd : (pairs.map Prod.fst).Nodup)
    {p : String × List UInt8} (hp : p ∈ pairs) {ts : Timestamp} {eid : EnvelopeId}
    (hcursor : ofBytes p.2 = EnvelopeRepository.makeEnvCursor ts eid) :
    queryParam (buildTarget path pairs) p.1 ≠ some (EnvelopeRepository.makeEnvCursor ts eid) := by
  rw [queryParam_buildTarget hpath hkeys hnd hp, ← hcursor, ofBytes, ne_eq, Option.some_inj,
    String.ofList_inj, Text.percentEncode_eq_ofBytes]
  intro hall
  have hsep : '|' ∈ Text.ofBytes p.2 := by
    have htext := congrArg String.toList hcursor
    simp only [ofBytes, String.toList_ofList] at htext
    simp [htext, EnvelopeRepository.makeEnvCursor]
  obtain ⟨b, hb, he⟩ := List.mem_map.mp hsep
  exact absurd (he ▸ hall b hb) (by decide)

def changesOf : List (String × List UInt8) := [("collection", [110, 45, 49]), ("limit", [53])]

theorem collection_received :
    queryParam (buildTarget "/v1/sync/changes" changesOf) "collection" = some "n-1" := by
  have hkeys : ∀ p ∈ changesOf, p.1.toList.all isKeyChar := by decide
  have hbytes : ∀ p ∈ changesOf, p.2.all fun b => Text.isUnreserved (Char.ofUInt8 b) := by decide
  exact (received_iff_unreserved "/v1/sync/changes" changesOf (by decide)
    (fun p hp => List.all_eq_true.mp (hkeys p hp)) (by decide)).mpr
    (fun p hp => List.all_eq_true.mp (hbytes p hp)) ("collection", [110, 45, 49]) (by decide)

/-- The cursor `5|m` of a listing is received as `5%7Cm`. -/
theorem cursor_encoded :
    ofBytes [53, 124, 109] = EnvelopeRepository.makeEnvCursor 5 "m" ∧
      queryParam (buildTarget "/v1/sync/pending" [("cursor", [53, 124, 109])]) "cursor" =
        some "5%7Cm" ∧
      ¬ ∀ p ∈ [("cursor", [53, 124, 109])],
        queryParam (buildTarget "/v1/sync/pending" [("cursor", [53, 124, 109])]) p.1 =
          some (ofBytes p.2) := by
  decide

end VoxServer.Http
