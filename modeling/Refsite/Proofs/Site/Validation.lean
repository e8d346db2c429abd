import Refsite.Proofs.Json.RoundTrip
import Refsite.Proofs.Site.Republishing
namespace Refsite

open Json (Tidy)

namespace Snapshot

end Snapshot

namespace Site

section Host

variable [Host] {s : Site} {raw : List Doclet} {out : Path} {d : Disk} {snapshot : Snapshot}
  {w : World}

theorem grows_of_publish {root input : Path} {out : Option Path} {settings : Option Settings}
    {tutorials : Option Path} {summary : Summary} {w w' : World}
    (hpublish : (publish root input out settings tutorials).start w =
      (.ok (.written summary), w')) : w.disk.Grows w'.disk := by
  obtain ⟨_, _, _, _, u, v, -, -, hdisk, hload, hwrite⟩ := of_publish_written hpublish
  rw [← hdisk, ← (reads_load _ _ _ _ _).disk_eq hload]
  exact grows_of_write hwrite

end Host

section Plain

open scoped Plain

end Plain

end Site

end Refsite
