import TileWorld.Proofs.StoreGrowth
import TileWorld.World.Basic

/-! The registry under any history of requests, good and bad. A request offers tilesets, and those in
front of the first that fails are published, behind all that were there: nothing is ever replaced. -/
namespace TileWorld

/-- One request to a store of tilesets. -/
inductive Request where
  | insert (t : Tileset)
  | loadText (id text : String) (policy : HoldPolicy)
  | loadFile (files : FileView) (root path : String) (policy : HoldPolicy)
  /-- All files of a list, as a world of these settings loads them. -/
  | loadFiles (settings : Settings) (files : FileView) (paths : List String)

/-- The tilesets that a request asks to publish, in order, each with what may be wrong with it. -/
def Request.offers : Request → List (Except Error Tileset)
  | .insert t => [.ok t]
  | .loadText id text policy => [Tileset.parse id text policy]
  | .loadFile files root path policy => [Tileset.ofFile files root path policy]
  | .loadFiles settings files paths =>
    paths.map (Tileset.ofFile files settings.tilesetDir · settings.holdPolicy)

namespace Store

/-- The answer to a request, and the store after it. -/
def serve (s : Store) : Request → Except Error (List String) × Store
  | .insert t =>
    let (answer, s) := s.publish t
    (answer.map fun _ => [t.id], s)
  | .loadText id text policy =>
    let (answer, s) := s.publishText id text policy
    (answer.map fun _ => [id], s)
  | .loadFile files root path policy =>
    let (id, s) := s.publishFile files root path policy
    (id.map ([·]), s)
  | .loadFiles settings files paths =>
    let (ids, w) := { World.ofSettings settings with store := s }.loadFiles files paths
    (ids, w.store)

/-- The store after requests, one after the other. -/
def serveAll (s : Store) (requests : List Request) : Store :=
  requests.foldl (fun s r => (s.serve r).2) s

/-- How a request ends, by the tilesets that it offers. -/
inductive Served (s : Store) (offers : List (Except Error Tileset)) :
    Except Error (List String) → Store → Prop where
  /-- All of them are published, behind those that were there. -/
  | all {s' : Store} (ts : List Tileset) (offered : offers = ts.map .ok)
      (tilesets : s'.tilesets = s.tilesets ++ ts) : Served s offers (.ok (ts.map (·.id))) s'
  /-- One fails, and those in front of it are published. -/
  | upTo {s' : Store} {e : Error} (done : List Tileset) (failing : Except Error Tileset)
      (rest : List (Except Error Tileset)) (offered : offers = done.map .ok ++ failing :: rest)
      (tilesets : s'.tilesets = s.tilesets ++ done) (fails : failing >>= s'.insert = .error e) :
      Served s offers (.error e) s'

/-- A tileset that is published goes in front of what is offered behind it. -/
theorem Served.cons {s s' s'' : Store} {t : Tileset} {offers : List (Except Error Tileset)}
    {answer : Except Error (List String)} (hs : s.insert t = .ok s')
    (h : Served s' offers answer s'') :
    Served s (.ok t :: offers) (answer.map (t.id :: ·)) s'' := by
  have hadd : s'.tilesets = s.tilesets ++ [t] := ((insert_eq_ok_iff ..).mp hs).2
  cases h with
  | all ts offered tilesets =>
    refine .all (t :: ts) ?_ ?_
    · rw [offered, List.map_cons]
    · rw [tilesets, hadd, List.append_assoc, List.singleton_append]
  | upTo done failing rest offered tilesets fails =>
    refine .upTo (t :: done) failing rest ?_ ?_ fails
    · rw [offered, List.map_cons, List.cons_append]
    · rw [tilesets, hadd, List.append_assoc, List.singleton_append]

/-- A request for one tileset publishes it or fails, and then its store is the one before it. -/
theorem offer_served (s : Store) (offer : Except Error Tileset) (id : String)
    (hid : ∀ t, offer = .ok t → t.id = id) :
    Served s [offer] ((s.offer offer).1.map fun _ => [id]) (s.offer offer).2 := by
  rcases s.offer_cases offer with ⟨e, ho, hfails⟩ | ⟨t, s', ht, ho, hinsert⟩
  · rw [ho]
    exact .upTo [] offer [] rfl (List.append_nil _).symm hfails
  · rw [ho, ← hid t ht, ht]
    exact .all [t] rfl ((insert_eq_ok_iff ..).mp hinsert).2

theorem loadFiles_served (s : Store) (files : FileView) (root : String) (policy : HoldPolicy)
    (paths : List String) :
    Served s (paths.map (Tileset.ofFile files root · policy))
      (s.loadFiles files root policy paths).1 (s.loadFiles files root policy paths).2 := by
  induction paths generalizing s with
  | nil => exact .all [] rfl (List.append_nil _).symm
  | cons path paths ih =>
    simp only [loadFiles, publishFile, List.map_cons]
    rcases s.offer_cases (Tileset.ofFile files root path policy) with
      ⟨e, ho, hfails⟩ | ⟨t, s', ht, ho, hinsert⟩
    · rw [ho]
      exact .upTo [] _ _ rfl (List.append_nil _).symm hfails
    · rw [ho, ← Tileset.ofFile_id ht, ht]
      exact (ih s').cons hinsert

theorem serve_served (s : Store) (r : Request) :
    Served s r.offers (s.serve r).1 (s.serve r).2 := by
  cases r with
  | insert t => exact s.offer_served (.ok t) t.id fun _ h => Except.ok.inj h ▸ rfl
  | loadText id text policy =>
    exact s.offer_served (Tileset.parse id text policy) id fun _ => Tileset.parse_id
  | loadFile files root path policy =>
    have hserved := s.offer_served (Tileset.ofFile files root path policy)
      (Path.tilesetId root path) fun _ => Tileset.ofFile_id
    simp only [serve, publishFile]
    generalize s.offer (Tileset.ofFile files root path policy) = r at hserved ⊢
    rcases r with ⟨_ | _, s'⟩ <;> exact hserved
  | loadFiles settings files paths => exact s.loadFiles_served ..

theorem Served.isPrefix {s s' : Store} {offers : List (Except Error Tileset)}
    {answer : Except Error (List String)} (h : Served s offers answer s') :
    s.tilesets <+: s'.tilesets := by
  cases h with
  | all ts _ htilesets => exact ⟨ts, htilesets.symm⟩
  | upTo done _ _ _ htilesets _ => exact ⟨done, htilesets.symm⟩

/-- A request for one tileset publishes it or nothing. -/
theorem Served.eq_of_error {s s' : Store} {offers : List (Except Error Tileset)} {e : Error}
    (h : Served s offers (.error e) s') (hone : offers.length = 1) : s' = s := by
  cases h with
  | upTo done failing rest hoffers htilesets _ =>
    have hlen : done.length + (rest.length + 1) = 1 := by
      simpa [hoffers] using hone
    have hdone : done = [] := List.length_eq_zero_iff.mp (by omega)
    exact ext_tilesets (by rw [htilesets, hdone, List.append_nil])

theorem serveAll_isPrefix (s : Store) (requests : List Request) :
    s.tilesets <+: (s.serveAll requests).tilesets := by
  induction requests generalizing s with
  | nil => exact List.prefix_rfl
  | cons r requests ih => exact (s.serve_served r).isPrefix.trans (ih (s.serve r).2)

/-- In every state that requests lead to, tilesets stand under their ids; a request publishes what it
offers in front of the first failure, and nothing when it fails for a single tileset; and whatever is
published, looked up or played is the same in all later states. -/
theorem serveAll_publishes_once (requests : List Request) :
    let s := empty.serveAll requests
    (∀ id t, s.find? id = some t ↔ t ∈ s.tilesets ∧ t.id = id) ∧
    (∀ r, Served s r.offers (s.serve r).1 (s.serve r).2) ∧
    (∀ r e, r.offers.length = 1 → (s.serve r).1 = .error e → (s.serve r).2 = s) ∧
    ∀ later, let s' := s.serveAll later
      s.tilesets <+: s'.tilesets ∧
      (∀ tileset id tile, s.lookup tileset id = .ok tile → s'.lookup tileset id = .ok tile) ∧
      ∀ ref track, s.track? ref = some track → s'.track? ref = some track := by
  intro s
  refine ⟨s.find?_eq_some_iff, s.serve_served, ?_, ?_⟩
  · intro r e hone he
    have hserved := s.serve_served r
    rw [he] at hserved
    exact hserved.eq_of_error hone
  · intro later s'
    have hkept : s.tilesets <+: s'.tilesets := s.serveAll_isPrefix later
    have hgrows : s.Grows s' := grows_of_isPrefix hkept
    exact ⟨hkept, fun _ _ _ => hgrows.lookup, fun _ _ => hgrows.track?⟩

end Store

end TileWorld
