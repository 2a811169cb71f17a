import DataLake.Foundation.Runs
import DataLake.PageSync
import DataLake.RunService

/-! One attempt at a run on a source whose pages do not change: what it has loaded,
saved and counted at every moment, and where it can end. -/

namespace DataLake

open Foundation

inductive PageEvent where
  | passed (page : Int)
  | saved (page : Int)
deriving DecidableEq

/-- The world with the page last asked for, and the history of the pages: when one
was passed to the destination, and when its progress was saved. -/
structure Traced where
  world : World
  page : Int := 0
  events : List PageEvent := []

def Traced.observe (t : Traced) (op : RunOp) (w : World) : Traced :=
  match op with
  | .send page => ⟨w, page, t.events⟩
  | .load _ => ⟨w, t.page, t.events ++ [.passed t.page]⟩
  | .saveRun .progress _ => ⟨w, t.page, t.events ++ [.saved t.page]⟩
  | _ => ⟨w, t.page, t.events⟩

def fromSource (source : Int → Response) : RunOp → RunAnswer → Bool
  | .send page, .response r => r = source page
  | _, _ => true

def execSource (source : Int → Response) : Exec RunSig RunAnswer Traced := fun op c t =>
  if fromSource source op c then
    (execRun op c t.world).map fun x => (x.1, t.observe op x.2)
  else none

variable {source : Int → Response} {c : RunAnswer} {t t' : Traced}

theorem execSource_some {op : RunOp} {r : op.Resp} (h : execSource source op c t = some (r, t')) :
    fromSource source op c = true ∧ ∃ w, execRun op c t.world = some (r, w) ∧
      t' = t.observe op w := by
  unfold execSource at h
  split_ifs at h with hsource
  simp only [Option.map_eq_some_iff, Prod.mk.injEq] at h
  obtain ⟨⟨r', w⟩, he, rfl, rfl⟩ := h
  exact ⟨hsource, w, he, rfl⟩

structure Same (t t' : Traced) : Prop where
  runs : t'.world.runs = t.world.runs
  rows : t'.world.rows = t.world.rows
  events : t'.events = t.events

theorem Same.trans {u v w : Traced} (h : Same u v) (h' : Same v w) : Same u w :=
  ⟨h'.runs.trans h.runs, h'.rows.trans h.rows, h'.events.trans h.events⟩

theorem execSource_quiet {op : RunOp} {r : op.Resp} (hop : op.quiet = true)
    (h : execSource source op c t = some (r, t')) : Same t t' ∧ t'.page = t.page := by
  obtain ⟨-, w, he, rfl⟩ := execSource_some h
  obtain ⟨hruns, hrows⟩ := execRun_quiet hop he
  cases op with
  | send page => cases hop
  | load rows => cases hop
  | saveRun fields copy => cases hop
  | _ => exact ⟨⟨hruns, hrows, rfl⟩, rfl⟩

theorem execSource_send {page : Int} {r : Except Exc Response}
    (h : execSource source (.send page) c t = some (r, t')) :
    Same t t' ∧ t'.page = page ∧ (r = .ok (source page) ∨ ∃ e, r = .error e) := by
  obtain ⟨hsource, w, he, rfl⟩ := execSource_some h
  obtain ⟨rfl, ⟨response, rfl, rfl⟩ | ⟨e, rfl, rfl⟩⟩ := execRun_send he
  · have hr : response = source page := by simpa [fromSource] using hsource
    exact ⟨⟨rfl, rfl, rfl⟩, rfl, .inl (by rw [hr])⟩
  · exact ⟨⟨rfl, rfl, rfl⟩, rfl, .inr ⟨e, rfl⟩⟩

theorem execSource_load {rows : List Row} {r : Except Exc Nat}
    (h : execSource source (.load rows) c t = some (r, t')) :
    t'.world.runs = t.world.runs ∧ t'.events = t.events ++ [.passed t.page] ∧
    t'.page = t.page ∧ ((r = .ok rows.length ∧ t'.world.rows = t.world.rows ++ rows) ∨
      ∃ e, r = .error e ∧ t'.world.rows = t.world.rows) := by
  obtain ⟨-, w, he, rfl⟩ := execSource_some h
  rcases execRun_load he with ⟨rfl, rfl⟩ | ⟨e, rfl, rfl⟩
  · exact ⟨rfl, rfl, rfl, .inl ⟨rfl, rfl⟩⟩
  · exact ⟨rfl, rfl, rfl, .inr ⟨e, rfl, rfl⟩⟩

theorem execSource_saveRun {fields : RunFields} {copy : PipelineRun} {r : Unit}
    (h : execSource source (.saveRun fields copy) c t = some (r, t')) :
    t'.world.runs = saveFields fields copy t.world.runs ∧ t'.world.rows = t.world.rows ∧
    t'.page = t.page ∧
    t'.events = t.events ++ if fields = .progress then [.saved t.page] else [] := by
  obtain ⟨-, w, he, rfl⟩ := execSource_some h
  obtain rfl := execRun_saveRun he
  cases fields <;> simp [Traced.observe]

/-! The invariant of an attempt. It starts in `first` with the copy `claimed`, whose
cursor names the page `base`. -/

def cursorAfter (cursor : Option Text) (base : Int) : Nat → Bool → Option Text
  | 0, _ => cursor
  | n + 1, true => some (str (base + n))
  | n + 1, false => some (str (base + n + 1))

def pageEvents (base : Int) : Nat → List PageEvent
  | 0 => []
  | n + 1 => pageEvents base n ++ [.passed (base + n), .saved (base + n)]

/-- The counters and the cursor of a run after `n` pages more than the claim had. -/
structure Progress (claimed : PipelineRun) (base : Int) (n : Nat) (l : Loaded)
    (run : PipelineRun) : Prop where
  pages : run.pagesExtracted = claimed.pagesExtracted + n
  extracted : run.recordsExtracted = claimed.recordsExtracted + l.records
  loaded : run.recordsLoaded = claimed.recordsLoaded + l.rows.length
  payloads : run.rawPayloadCount = claimed.rawPayloadCount + n
  cursor : run.lastSuccessfulCursor = cursorAfter claimed.lastSuccessfulCursor base n l.ended

structure Copy (claimed : PipelineRun) (base : Int) (n : Nat) (l : Loaded)
    (copy : PipelineRun) : Prop extends Progress claimed base n l copy where
  id : copy.id = claimed.id
  status : copy.status = .running

/-- A page that was passed to the destination, and is not saved. -/
def Unsaved (base : Int) (n : Nat) (l : Loaded) (extra : List PageEvent) : Prop :=
  extra = [] ∨ (extra = [.passed (base + n)] ∧ l.ended = false)

/-- At every moment `n` pages are saved, and the rows of at most one more are in the
destination. -/
structure Moment (y : Sync) (claimed : PipelineRun) (base : Int) (first : Traced) (n : Nat)
    (l : Loaded) (t : Traced) : Prop where
  loaded : y.pages base n = some l
  rows : t.world.rows = first.world.rows ++ l.rows ∨
    ∃ l', y.add l (base + n) = some l' ∧ t.world.rows = first.world.rows ++ l'.rows
  row : ∃ row, findRun t.world.runs claimed.id = some row ∧ Progress claimed base n l row ∧
    (row.status = .succeeded → y.Runnable ∧ y.Complete base n ∧
      t.world.rows = first.world.rows ++ l.rows)
  events : ∃ extra, Unsaved base n l extra ∧
    t.events = first.events ++ pageEvents base n ++ extra

/-- Between two pages the destination holds what is saved. -/
structure AtPage (y : Sync) (claimed : PipelineRun) (base : Int) (first : Traced) (n : Nat)
    (l : Loaded) (extra : List PageEvent) (t : Traced) : Prop where
  loaded : y.pages base n = some l
  rows : t.world.rows = first.world.rows ++ l.rows
  row : ∃ row, findRun t.world.runs claimed.id = some row ∧ Progress claimed base n l row ∧
    row.status = .running
  events : t.events = first.events ++ pageEvents base n ++ extra

/-- Where a run stands when nobody executes it: `n` pages from `start` on are counted
in its row and loaded after the `initial` rows. -/
structure Between (y : Sync) (initial : List Row) (origin : PipelineRun) (start : Int) (run : Uuid)
    (n : Nat) (l : Loaded) (t : Traced) (row : PipelineRun) : Prop where
  loaded : y.pages start n = some l
  rows : t.world.rows = initial ++ l.rows
  found : findRun t.world.runs run = some row
  progress : Progress origin start n l row
  complete : row.status = .succeeded → y.Runnable ∧ y.Complete start n
  unended : row.status ≠ .succeeded → l.ended = false

structure Ended (y : Sync) (claimed : PipelineRun) (base : Int) (first : Traced) (n : Nat)
    (l : Loaded) (t : Traced) (row : PipelineRun) : Prop
    extends Between y first.world.rows claimed base claimed.id n l t row where
  events : ∃ extra, Unsaved base n l extra ∧
    t.events = first.events ++ pageEvents base n ++ extra

variable {y : Sync} {claimed copy : PipelineRun} {base : Int} {first : Traced} {n : Nat}
  {l l' : Loaded} {extra : List PageEvent}

theorem AtPage.same (h : AtPage y claimed base first n l extra t) (hs : Same t t') :
    AtPage y claimed base first n l extra t' where
  loaded := h.loaded
  rows := hs.rows.trans h.rows
  row := by
    rw [hs.runs]
    exact h.row
  events := hs.events.trans h.events

theorem AtPage.moment (h : AtPage y claimed base first n l extra t)
    (hextra : Unsaved base n l extra) : Moment y claimed base first n l t where
  loaded := h.loaded
  rows := .inl h.rows
  row := by
    obtain ⟨row, hrow, hprogress, hrunning⟩ := h.row
    exact ⟨row, hrow, hprogress, fun hs => by simp [hrunning] at hs⟩
  events := ⟨extra, hextra, h.events⟩

theorem Ended.moment {row : PipelineRun} (h : Ended y claimed base first n l t row) :
    Moment y claimed base first n l t where
  loaded := h.loaded
  rows := .inl h.rows
  row := ⟨row, h.found, h.progress, fun hs => ⟨(h.complete hs).1, (h.complete hs).2, h.rows⟩⟩
  events := h.events

def Moments (y : Sync) (claimed : PipelineRun) (base : Int) (first : Traced)
    (_ t : Traced) : Prop :=
  ∃ n l, Moment y claimed base first n l t

theorem quiet_safe {α : Type} {p : RunProg α} (hp : p.Issues fun op : RunOp => op.quiet = true)
    (hmoment : ∀ t', Same t t' → Moments y claimed base first t t') :
    p.Safe (execSource source) Eq (Moments y claimed base first)
      (fun _ t' => Same t t' ∧ t'.page = t.page) t := by
  refine Prog.Safe.frame (K := fun t' => Same t t' ∧ t'.page = t.page)
    (fun v v' hv heq => ?_) (fun op hop v c r v' hv he => ?_) hp ⟨⟨rfl, rfl, rfl⟩, rfl⟩
  · subst heq
    exact hv
  · obtain ⟨hsame, hpage⟩ := execSource_quiet hop he
    have hall := hv.1.trans hsame
    exact ⟨hmoment v' hall, hall, hpage.trans hv.2⟩

theorem AtPage.moments (h : AtPage y claimed base first n l extra t)
    (hextra : Unsaved base n l extra) (t' : Traced) (hs : Same t t') :
    Moments y claimed base first t t' :=
  ⟨n, l, (h.same hs).moment hextra⟩

end DataLake
