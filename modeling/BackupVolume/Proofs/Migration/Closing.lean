import BackupVolume.Migration.Copy
import BackupVolume.Proofs.Job.Ending

/-! # Closing a migration

When a migration has gone through its source, the last block is flushed, both devices are released,
and the catalog is told of the end. Nothing of it turns a failure into a success.
-/
namespace BackupVolume

namespace Migration
variable {σ κ γ : Type} [BlockSource σ] [BlockSink κ] [Catalog γ]

def flushed (w : VolumeWriter κ) (x : Except Failure JobStatus) :
    VolumeWriter κ × Except Failure Unit :=
  if x.isOk || BlockSink.canWrite w.sink then w.flush else (w, .ok ())

def ended (w : VolumeWriter κ) (reader : VolumeReader σ) (x : Except Failure JobStatus) :
    Except Failure JobStatus :=
  firstFailure x [(flushed w x).2, (BlockSource.release reader.source).2.mapError .device,
    (BlockSink.release (flushed w x).1.sink).2.mapError .device]

theorem ended_of_ok {w : VolumeWriter κ} {reader : VolumeReader σ} {x : Except Failure JobStatus}
    (hflush : (flushed w x).2 = .ok ()) (hsource : (BlockSource.release reader.source).2 = .ok ())
    (hsink : (BlockSink.release (flushed w x).1.sink).2 = .ok ()) : ended w reader x = x := by
  rw [ended, hflush, hsource, hsink]
  refine firstFailure_of_ok (fun c hc => ?_) x
  simp only [List.mem_cons, List.not_mem_nil, or_false] at hc
  rcases hc with rfl | rfl | rfl <;> rfl

def told (m : Migration κ γ) : Except Failure JobStatus → γ × Except IoFault Unit
  | .ok .terminated => commit m.catalog m.spool.toList
  | _ => (m.catalog, .ok ())

theorem run_eq {o : JobOptions} {rules : Rules} {sourceKey sinkKey : Option VolumeKey}
    {nonce : Nonce} {session : Session} {source : σ} {sink : κ} {catalog : γ} {j : State κ γ}
    {reader : VolumeReader σ} {x : Except Failure JobStatus}
    (h : Job.run o.proceed rules (handle o session)
      { writer := .create sink o.blockSize session o.blockChecksums sinkKey nonce, catalog }
      { source, verify := o.verifyChecksums, key := sourceKey } = (j, reader, x)) :
    run o rules sourceKey sinkKey nonce session source sink catalog =
      { source := (BlockSource.release reader.source).1
        sink := (BlockSink.release (flushed j.work.writer x).1.sink).1
        catalog := (told j.work (ended j.work.writer reader x)).1
        result := j.result reader.stats (firstFailure (ended j.work.writer reader x)
          [(told j.work (ended j.work.writer reader x)).2.mapError .catalog]) } := by
  simp only [run, h]
  rfl

end Migration
end BackupVolume
