import Refsite.Proofs.Site.Difference
import Refsite.Proofs.Site.Mirroring
import Refsite.Proofs.Site.NewSite
namespace Refsite

open Refsite.Path Run

variable {place there : Place}

/-- A path leads to a new directory that does not lie in a published one, and in which the files of
that one have room. -/
structure IsScratch (d goal : Disk) (place : Place) (scratch : Path) (there : Place) : Prop where
  proper : scratch.IsProper
  leads : d.reach false scratch = .ok there
  free : d.entry? there = none
  outside : ¬ place <+: there
  room : ∀ names, (goal.entry? (place ++ names)).isSome → Disk.IsUsable (scratch.below names)

theorem IsScratch.exists_made {d goal : Disk} {scratch : Path}
    (h : IsScratch d goal place scratch there) (hd : d.IsTree) :
    ∃ e, d.makeDirectory scratch = .ok e ∧ e.Opened scratch there ∧
      (∀ q, ¬ there <+: q → e.entry? q = d.entry? q) ∧
      ∀ q, there <+: q → q ≠ there → e.entry? q = none := by
  obtain ⟨hnull, hlength, hleads⟩ := Disk.of_reach_ok h.leads
  have hlink : ∀ target, d.entry? there ≠ some (.link target) := by
    intro target htarget
    rw [h.free] at htarget
    cases htarget
  have hlocate : d.locate scratch = .ok there :=
    Disk.reach_of_leads hnull hlength (hleads.to_end hlink)
  have hne : there ≠ [] := by
    intro heq
    have hnone := h.free
    rw [heq, Disk.entry?_top] at hnone
    cases hnone
  have hgrows := Disk.grows_put_directory h.free
  have hput : Disk.entry? (d.put there .directory) there = some .directory := by
    rw [Disk.entry?_put d hne, if_pos rfl]
  have hempty : ∀ q, there <+: q → q ≠ there → Disk.entry? (d.put there .directory) q = none := by
    intro q hq hother
    rw [Disk.entry?_put d hne, if_neg hother]
    exact hd.entry_below h.free hq
  refine ⟨d.put there .directory, ?_, ⟨?_, h.proper, hgrows.locate hlocate, hput, ?_⟩, ?_, hempty⟩
  · rw [Disk.makeDirectory, h.leads]
    dsimp only
    rw [h.free]
  · exact hd.put_of_reach h.proper h.leads hne fun _ => rfl
  · intro q hq target htarget
    by_cases heq : q = there
    · rw [heq, hput] at htarget
      cases htarget
    · rw [hempty q hq heq] at htarget
      cases htarget
  · intro q hq
    rw [Disk.entry?_put d hne, if_neg]
    rintro rfl
    exact hq List.prefix_rfl

theorem IsScratch.treeApart {d goal : Disk} {out scratch : Path}
    (h : IsScratch d goal place scratch there) (hd : d.Opened out place) :
    d.TreeApart (there <+: ·) out := by
  obtain ⟨-, -, hleads⟩ := Disk.of_reach_ok hd.leads
  constructor
  · intro q hq hbelow
    have hsome := hleads.isSome_of_meets (by rw [hd.directory, Option.isSome_some]) hq
    rw [hd.tree.entry_below h.free hbelow] at hsome
    cases hsome
  · intro q' q hq' hq hbelow
    cases hd.leads.symm.trans hq'
    obtain hout | habove := List.prefix_or_prefix_of_prefix hq hbelow
    · exact h.outside hout
    · have hnone := hd.tree.entry_below h.free habove
      rw [hd.directory] at hnone
      cases hnone

namespace Site

section Host

variable [Host] {root input out : Path} {settings : Settings} {raw : List Doclet}
  {s : Site} {published : Published} {w w' : World}

/-- Writing a site begins with a directory in the one that it is written to, so it does not matter
whether that is there already. -/
theorem start_write_opened {d d' : Disk} {v : World}
    (hmade : v.disk.makeDirectories (out.child Snapshot.directory) = .ok d')
    (hmade' : d.makeDirectories (out.child Snapshot.directory) = .ok d') :
    (s.write raw settings root out).start { v with disk := d } =
      (s.write raw settings root out).start v := by
  have hsnapshots : (writeSnapshots s raw out Snapshot.all).start { v with disk := d } =
      (writeSnapshots s raw out Snapshot.all).start v := by
    have hstart : ∀ {u : World}, u.disk.makeDirectories (out.child Snapshot.directory) = .ok d' →
        (Run.makeDirectories (out.child Snapshot.directory)).start u =
          (.ok (), { u with disk := d' }) := fun hu => start_change hu
    rw [Snapshot.all, writeSnapshots]
    dsimp only
    rw [start_bind_ok (hstart hmade), start_bind_ok (hstart (u := { v with disk := d }) hmade')]
  rw [write, start_bind, start_bind, hsnapshots]

theorem of_write_makes {summary : Summary}
    (h : (s.write raw settings root out).start w = (.ok summary, w')) :
    ∃ d, w.disk.makeDirectories (out.child Snapshot.directory) = .ok d ∧ d.Grows w'.disk := by
  obtain ⟨_, _, hsnapshots, -⟩ := of_start_bind h
  rw [Snapshot.all, writeSnapshots] at hsnapshots
  obtain ⟨_, v, hmade, -⟩ := of_start_bind hsnapshots
  have hmade := of_start_change hmade
  have hagain : v.disk.makeDirectories (out.child Snapshot.directory) = .ok v.disk :=
    Disk.makeDirectories_of_isDirectory (Disk.makeDirectories_spec hmade).2
  rw [← start_write_opened hmade hagain] at h
  have hgrows := grows_of_write h
  exact ⟨v.disk, hmade, hgrows⟩

theorem of_start_publish
    (h : (publish root input (some out) none none).start w = (.ok published, w')) :
    ∃ settings raw s summary w₁ w₂ w₃, (Settings.load root).start w = (.ok settings, w₁) ∧
      (Doclet.load input).start w₁ = (.ok raw, w₂) ∧
      (load root input settings none raw).start w₂ = (.ok s, w₃) ∧
      (s.write raw settings root out).start w₃ = (.ok summary, w') ∧ w₃.disk = w.disk := by
  rw [publish_eq] at h
  obtain ⟨settings, w₁, hsettings, h⟩ := of_start_bind h
  rw [publish_given_eq] at h
  obtain ⟨raw, w₂, hraw, h⟩ := of_start_bind h
  obtain ⟨s, w₃, hsite, h⟩ := of_start_bind h
  obtain ⟨summary, w₄, hwrite, h⟩ := of_start_bind h
  obtain ⟨-, rfl⟩ := of_start_pure h
  refine ⟨settings, raw, s, summary, w₁, w₂, w₃, hsettings, hraw, hsite, hwrite, ?_⟩
  rw [(reads_load _ _ _ _ _).disk_eq hsite, (Doclet.reads_load input).disk_eq hraw,
    (Settings.reads_load root).disk_eq hsettings]

theorem NamesPages.exists_opened {summary : Summary}
    (hs : s.NamesPages (listed settings s.sources)) (hroot : root.IsProper) (hout : out.IsProper)
    (hw : w.disk.IsTree) (hplace : w'.disk.locate out = .ok place)
    (hnew : w.disk.entry? place = none)
    (h : (s.write raw settings root out).start w = (.ok summary, w')) :
    ∃ d, d.Opened out place ∧ (s.write raw settings root out).start { w with disk := d } =
        (.ok summary, w') ∧ w'.disk.Opened out place ∧
      (∀ q, ¬ place <+: q → d.entry? q = w'.disk.entry? q) ∧
      ∀ q, place <+: q → d.entry? q = none ∨ d.entry? q = some .directory := by
  obtain ⟨made, hmade, hgrows⟩ := of_write_makes h
  obtain ⟨d, -, hagain, hopened, hempty⟩ :=
    Disk.exists_opened hw hout hmade hgrows hplace hnew
  have hreplayed := (start_write_opened hmade hagain).trans h
  have hconfined : (s.write raw settings root out).Confined out.Inside _ :=
    hs.confined_write hout hroot
  obtain ⟨hsteps, -⟩ := hconfined { w with disk := d } hopened.tree
  rw [hreplayed] at hsteps
  obtain ⟨hopened', hkept⟩ := hopened.steps hsteps
  exact ⟨d, hopened, hreplayed, hopened', fun q hq => (hkept q (.inl hq)).symm, hempty⟩

theorem start_verify {e : Disk} (hdirectory : w.disk.isDirectory out = true)
    (hmade : w.disk.makeDirectory (Scratch.path w.chance w.disk) = .ok e)
    (hpublish : (publish root input (some (Scratch.path w.chance w.disk)) none none).start
      { w with disk := e } = (.ok published, w')) :
    (verify root input out).start w =
      (.ok (w'.disk.difference out (Scratch.path w.chance w.disk)), { w' with disk := w.disk }) := by
  have hmake : (Run.change fun d => d.makeDirectory (Scratch.path w.chance w.disk)).start w =
      (.ok (), { w with disk := e }) := start_change hmade
  have hget : ∀ u : World, (get : Run World).start u = (.ok u, u) := fun _ => rfl
  have hset : ∀ u u' : World, (set u : Run PUnit).start u' = (.ok ⟨⟩, u) := fun _ _ => rfl
  rw [verify, start_bind_ok (start_look (Disk.look_of_isDirectory hdirectory))]
  dsimp only
  rw [bne_self_eq_false, if_neg Bool.false_ne_true]
  change ((get : Run World) >>= _).start w = _
  rw [start_bind_ok (hget w), start_bind_ok hmake, start_bind_ok (hget _), hpublish]
  dsimp only
  rw [start_bind_ok (hset _ _)]
  rfl

/-- What may have changed once a site was published: what stands in its directory, and in the one
where it is published once more. -/
def Written (place there : Place) (q : Place) : Prop := place <+: q ∨ there <+: q

def Changed (place there : Place) (d d' : Disk) (q : Place) : Prop :=
  Written place there q ∨ d.entry? q ≠ d'.entry? q

/-- Nothing that is read by a run that published a site stands in the directory of the site, or in
the one where it is published once more. What is read before anything is written stands apart also
from the directories that were made on the way; the settings need not be there. -/
structure ReadsApart (root input : Path) (place there : Place) (w w' : World) : Prop where
  file : w'.disk.Apart (Changed place there w.disk w'.disk) (root.child Settings.fileName) ∨
    w'.disk.Apart (Written place there) (root.child Settings.fileName) ∧
      w'.disk.look (root.child Settings.fileName) = .ok none
  dump : w'.disk.Apart (Changed place there w.disk w'.disk) input
  tutorials : ∀ settings w₁, (Settings.load root).start w = (.ok settings, w₁) →
    ∀ directory ∈ Settings.pathBelow root settings.tutorials,
      Tutorial.ReadApart (Changed place there w.disk w'.disk) w'.disk directory
  rest : ∀ settings raw s w₁ w₂ w₃, (Settings.load root).start w = (.ok settings, w₁) →
    (Doclet.load input).start w₁ = (.ok raw, w₂) →
    (load root input settings none raw).start w₂ = (.ok s, w₃) →
    WritesApart (Written place there) w'.disk root settings s

theorem ReadsApart.exists_loaded {v : World} (h : ReadsApart root input place there w w')
    (hw : w.disk.IsTree) (hv : w'.disk.IsTree) (hgrows : w.disk.Grows w'.disk)
    (htree : v.disk.IsTree)
    (hagrees : ∀ q, ¬ Written place there q → v.disk.entry? q = w'.disk.entry? q)
    {w₁ w₂ w₃ : World} (hsettings : (Settings.load root).start w = (.ok settings, w₁))
    (hraw : (Doclet.load input).start w₁ = (.ok raw, w₂))
    (hsite : (load root input settings none raw).start w₂ = (.ok s, w₃)) :
    ∃ v₁ v₂ v₃, (Settings.load root).start v = (.ok settings, v₁) ∧
      (Doclet.load input).start v₁ = (.ok raw, v₂) ∧
      (load root input settings none raw).start v₂ = (.ok s, v₃) ∧ v₃.disk = v.disk := by
  have hbefore : w'.disk.Like (Changed place there w.disk w'.disk) w.disk :=
    ⟨hw, fun q hq => by_contra fun hne => hq (.inr hne)⟩
  have hafter : w'.disk.Like (Changed place there w.disk w'.disk) v.disk :=
    ⟨htree, fun q hq => hagrees q fun hwritten => hq (.inl hwritten)⟩
  have hdisk₁ : w₁.disk = w.disk := (Settings.reads_load root).disk_eq hsettings
  have hdisk₂ : w₂.disk = w₁.disk := (Doclet.reads_load input).disk_eq hraw
  have hloaded : ∃ v₁, (Settings.load root).start v = (.ok settings, v₁) ∧ v₁.disk = v.disk := by
    obtain hfile | ⟨hfile, hnone⟩ := h.file
    · obtain ⟨v₁, hstart, -, hv₁, -⟩ :=
        Settings.steady_load hfile _ _ _ _ hbefore hafter hsettings
      exact ⟨v₁, hstart, hv₁⟩
    · have hmissing : v.disk.look (root.child Settings.fileName) = .ok none :=
        (hfile.look hagrees).trans hnone
      have hfile' : w.disk.isFile (root.child Settings.fileName) = false := by
        refine Bool.eq_false_iff.mpr fun hisFile => ?_
        have hisFile' := hgrows.isFile hisFile
        rw [Disk.isFile, Disk.find?_of_look hnone] at hisFile'
        cases hisFile'
      rw [Settings.eq_standard hsettings hfile']
      exact ⟨v, Settings.start_load_none hmissing, rfl⟩
  obtain ⟨v₁, hsettings', hv₁⟩ := hloaded
  obtain ⟨v₂, hraw', -, hv₂, -⟩ :=
    Doclet.steady_load h.dump _ _ _ _ (hdisk₁ ▸ hbefore) (hv₁ ▸ hafter) hraw
  obtain ⟨v₃, hsite', -, hv₃, -⟩ := steady_load hv (h.tutorials _ _ hsettings) _ _ _ _
    (hdisk₂.trans hdisk₁ ▸ hbefore) (hv₂.trans hv₁ ▸ hafter) hsite
  exact ⟨v₁, v₂, v₃, hsettings', hraw', hsite', hv₃.trans (hv₂.trans hv₁)⟩

theorem exists_published_again {m : Mirror} {v : World} (hgoal : m.goal = w'.disk)
    (hroot : root.IsProper) (hout : m.out.IsProper)
    (hw : w.disk.IsTree) (hplace : w'.disk.locate m.out = .ok m.here)
    (hnew : w.disk.entry? m.here = none) (hapart : ReadsApart root input m.here m.there w w')
    (hopened : v.disk.Opened m.scratch m.there)
    (hempty : ∀ q, m.there <+: q → q ≠ m.there → v.disk.entry? q = none)
    (hagrees : ∀ q, ¬ m.Written q → v.disk.entry? q = m.goal.entry? q)
    (h : (publish root input (some m.out) none none).start w = (.ok published, w')) :
    ∃ again v', (publish root input (some m.scratch) none none).start v = (.ok again, v') ∧
      m.Reflects m.goal v'.disk ∧ ∀ q, ¬ m.there <+: q → v'.disk.entry? q = v.disk.entry? q := by
  obtain ⟨settings, raw, s, summary, w₁, w₂, w₃, hsettings, hraw, hsite, hwrite, hdisk⟩ :=
    of_start_publish h
  have hs := namesPages_of_load hsite
  have hgrows := grows_of_write hwrite
  have hwrites : WritesApart m.Written w'.disk root settings s :=
    hapart.rest _ _ _ _ _ _ hsettings hraw hsite
  obtain ⟨d, hd, hreplayed, hopened', hkept, hnothing⟩ :=
    hs.exists_opened hroot hout (hdisk ▸ hw) hplace (hdisk ▸ hnew) hwrite
  rw [hdisk] at hgrows
  rw [← hgoal] at hwrites
  obtain ⟨v₁, v₂, v₃, hsettings', hraw', hsite', hdisk'⟩ := hapart.exists_loaded hw hopened'.tree
    hgrows hopened.tree (hgoal ▸ hagrees) hsettings hraw hsite
  rw [← hgoal] at hopened' hkept
  have hreflects : m.Reflects d v₃.disk := by
    rw [hdisk']
    exact m.reflects_of_empty ⟨hd, hkept⟩ hopened hagrees hnothing hempty
  obtain ⟨again, v', hwrite', hfinal, -⟩ := (mirrors_write hopened'.tree hroot hs hwrites).both
    hreplayed (hgoal ▸ .refl _) hreflects
  rw [← hgoal] at hfinal
  have hconfined : (s.write raw settings root m.scratch).Confined m.scratch.Inside _ :=
    hs.confined_write hopened.proper hroot
  obtain ⟨hsteps, -⟩ := hconfined v₃ (hdisk' ▸ hopened.tree)
  rw [hwrite', hdisk'] at hsteps
  obtain ⟨-, houtside⟩ := hopened.steps hsteps
  obtain ⟨rfl, -⟩ := Doclet.load_spec hraw'
  refine ⟨.written again, v', ?_, hfinal, fun q hq => houtside q (.inl hq)⟩
  rw [publish_eq]
  change (Settings.load root >>= _).start v = _
  rw [start_bind_ok hsettings', start_publish hraw' hsite' hwrite']

section Published

variable (hroot : root.IsProper) (hout : out.IsProper) (hw : w.disk.IsTree)
  (hpublish : (publish root input (some out) none none).start w = (.ok published, w'))
  (hplace : w'.disk.locate out = .ok place) (hnew : w.disk.entry? place = none)

include hroot hout hw hpublish hplace hnew

theorem opened_of_publish : w'.disk.Opened out place := by
  obtain ⟨_, _, _, _, _, _, _, -, -, hsite, hwrite, hdisk⟩ := of_start_publish hpublish
  obtain ⟨-, -, -, hopened, -⟩ := (namesPages_of_load hsite).exists_opened hroot hout
    (hdisk ▸ hw) hplace (hdisk ▸ hnew) hwrite
  exact hopened

theorem exists_difference {v : World} (hv : v.disk.Opened out place)
    (houtside : ∀ q, ¬ place <+: q → v.disk.entry? q = w'.disk.entry? q)
    (hscratch : IsScratch v.disk w'.disk place (Scratch.path v.chance v.disk) there)
    (hapart : ReadsApart root input place there w w') :
    ∃ difference v', (verify root input out).start v = (.ok difference, v') ∧
      v'.disk = v.disk ∧ difference.Tells v.disk out w'.disk out := by
  obtain ⟨e, hmade, hfirst, hkept, hempty⟩ := hscratch.exists_made hv.tree
  let m : Mirror :=
    ⟨w'.disk, out, place, Scratch.path v.chance v.disk, there, hscratch.room⟩
  have hagrees : ∀ q, ¬ m.Written q → e.entry? q = w'.disk.entry? q := fun q hq =>
    (hkept q fun hthere => hq (.inr hthere)).trans (houtside q fun hhere => hq (.inl hhere))
  obtain ⟨again, u, hagain, hreflects, hrest⟩ := exists_published_again (m := m)
    (v := { v with disk := e }) rfl hroot hout hw hplace hnew hapart hfirst hempty hagrees
    hpublish
  have hdirectory : v.disk.isDirectory out = true :=
    Disk.isDirectory_iff.mpr ⟨place, hv.leads, hv.directory⟩
  -- The published directory is as it was before publishing once more.
  have hlike : v.disk.Like (there <+: ·) u.disk :=
    ⟨hreflects.second.tree, fun q hq => (hrest q hq).trans (hkept q hq)⟩
  have htree := hscratch.treeApart hv
  refine ⟨_, _, start_verify hdirectory hmade hagain, rfl, ?_⟩
  exact (Disk.tells_difference (hv.of_like htree hlike) hreflects.second).congr
    (fun _ => hv.hasFile_iff htree hlike)
    (fun _ hfile => hv.read_eq htree hlike ((hv.hasFile_iff htree hlike).mp hfile))
    (fun _ => hreflects.hasFile) fun _ => hreflects.read

/-- Verifying a site after it was published to a new directory finds no difference, where nothing
that is read stands in that directory or in the one that it is published to once more, no page
depends on chance, and that other directory has room for the site and is new. After any change in the
directory it tells the sorted paths of just the files that only the directory has, of those that it
misses, and of those that have other bytes; and the disk stays as it is. -/
theorem verify_published :
    (∀ (v : World) (there : Place), v.disk = w'.disk →
        IsScratch v.disk w'.disk place (Scratch.path v.chance v.disk) there →
        ReadsApart root input place there w w' →
        ∃ v', (verify root input out).start v = (.ok ⟨[], [], []⟩, v') ∧ v'.disk = v.disk) ∧
      ∀ (v : World) (there : Place), v.disk.Opened out place →
        (∀ q, ¬ place <+: q → v.disk.entry? q = w'.disk.entry? q) →
        IsScratch v.disk w'.disk place (Scratch.path v.chance v.disk) there →
        ReadsApart root input place there w w' →
        ∃ difference v', (verify root input out).start v = (.ok difference, v') ∧
          v'.disk = v.disk ∧ difference.Tells v.disk out w'.disk out := by
  have hverify : ∀ (v : World) (there : Place), v.disk.Opened out place →
      (∀ q, ¬ place <+: q → v.disk.entry? q = w'.disk.entry? q) →
      IsScratch v.disk w'.disk place (Scratch.path v.chance v.disk) there →
      ReadsApart root input place there w w' →
      ∃ difference v', (verify root input out).start v = (.ok difference, v') ∧
        v'.disk = v.disk ∧ difference.Tells v.disk out w'.disk out :=
    fun v there hv houtside hscratch hapart => exists_difference hroot hout hw hpublish hplace hnew
      hv houtside hscratch hapart
  refine ⟨fun v there hdisk hscratch hapart => ?_, hverify⟩
  have hopened := opened_of_publish hroot hout hw hpublish hplace hnew
  obtain ⟨difference, v', hstart, hv', htells⟩ := hverify v there (hdisk ▸ hopened)
    (fun _ _ => by rw [hdisk]) hscratch hapart
  rw [hdisk] at htells
  rw [htells.eq_nothing] at hstart
  exact ⟨v', hstart, hv'⟩

end Published

end Host

section Plain

open scoped Plain

theorem drawsApart_standard {sheet : Page.Sheet} {content : String} (bad : Place → Prop) (d : Disk)
    (nav : String) (hbody : sheet.body = .ok content) :
    sheet.DrawsApart bad d (.ofPaths none none) nav where
  templates chance name _ p hp := by
    rw [Page.Theme.candidates_standard] at hp
    cases hp
  chance chance chance' := by
    obtain ⟨markup, hdraw⟩ := start_draw_standard nav hbody
    have hrun : ∀ chance, (sheet.rendering chance (Page.Theme.ofPaths none none).layoutName nav).run
        ((Page.Theme.ofPaths none none).find? d) = .ok markup := by
      intro chance
      have hstart := hdraw { disk := d, chance := chance }
      rw [Page.Sheet.start_draw, Prod.mk.injEq] at hstart
      exact hstart.1
    rw [hrun, hrun]

/-- The place where the site of the hostile project is published once more. -/
def hostileScratch : Place := ["tmp", "refsite0"]

theorem apart_child {before d : Disk} {names pages : List String} {bad : Place → Prop} {name : String}
    (h : HoldsSite before names pages d) (hname : name ≠ Path.up) (htop : ¬ bad [])
    (hbad : ¬ bad [name]) : d.Apart bad (Path.top.child name) := by
  intro q hq
  obtain ⟨init, hinit, rfl⟩ := hq.plain (List.forall_mem_singleton.mpr hname) fun _ _ target =>
    h.opened.free _ List.nil_prefix target
  obtain rfl | ⟨rest, rfl, hrest⟩ := List.prefix_cons_iff.mp hinit
  · exact htop
  · obtain rfl := List.prefix_nil.mp hrest
    exact hbad

theorem HoldsHostile.apart {d : Disk} (h : HoldsHostile d) {name : String} (hname : name ≠ Path.up)
    (hother : [name] ∉ siteRooms ["out"] ++ siteFiles ["out"] hostilePages) :
    d.Apart (Changed ["out"] hostileScratch hostileProject.disk d) (Path.top.child name) := by
  refine apart_child h hname (fun htop => ?_) fun hchanged => ?_
  · simp [Changed, Written, hostileScratch, Disk.entry?_top] at htop
  · obtain (hout | hthere) | hne := hchanged
    · have hname := (List.cons_prefix_cons.mp hout).1
      exact hother (hname ▸ by decide)
    · have hlength := hthere.length_le
      simp [hostileScratch] at hlength
    · exact hne (h.kept_below hother).symm

theorem HoldsHostile.readsApart {w' : World} (h : HoldsHostile w'.disk) :
    ReadsApart .top dumpPath ["out"] hostileScratch hostileProject w' where
  file := .inl (h.apart (by decide) (by decide))
  dump := h.apart (by decide) (by decide)
  tutorials := by
    intro settings w₁ hsettings
    rw [start_load_hostileProject] at hsettings
    cases hsettings
    nofun
  rest := by
    intro settings raw s w₁ w₂ w₃ hsettings hraw hsite
    cases start_load_hostileProject.symm.trans hsettings
    cases start_hostileDump.symm.trans hraw
    obtain ⟨s', v, hload, -, htutorials, hsources, hbody, -⟩ := exists_load_hostileProject
    cases hload.symm.trans hsite
    refine ⟨fun sheet hsheet => ?_, ?_, nofun, nofun, ?_, ?_⟩
    · rw [htutorials, List.append_nil] at hsheet
      obtain ⟨content, hcontent⟩ := hbody sheet hsheet
      exact drawsApart_standard _ _ _ hcontent
    · intro q hq hwritten
      exact h.apart (by decide) (by decide) q hq (.inl hwritten)
    · rw [hsources]
      nofun
    · rw [hsources]
      nofun

theorem isScratch_of_holdsSite {before d : Disk} {pages : List String} (chance : Nat)
    (h : HoldsSite before ["out"] pages d)
    (hother : ["tmp"] ∉ siteRooms ["out"] ++ siteFiles ["out"] pages ∧
      ["tmp", Plain.scratchName chance] ∉ siteRooms ["out"] ++ siteFiles ["out"] pages)
    (htmp : before.entry? ["tmp"] = some .directory)
    (hfree : before.entry? ["tmp", Plain.scratchName chance] = none)
    (hnew : ∀ names, before.entry? ("out" :: names) = none)
    (hname : IsEntryName (Plain.scratchName chance))
    (husable : ∀ more ∈ siteRooms ["out"] ++ siteFiles ["out"] pages,
      Disk.IsUsable ((Path.top.below ["tmp", Plain.scratchName chance]).below more.tail)) :
    Scratch.path chance d = Path.top.below ["tmp", Plain.scratchName chance] ∧
      IsScratch d d ["out"] (Scratch.path chance d) ["tmp", Plain.scratchName chance] := by
  have hnone : d.entry? ["tmp", Plain.scratchName chance] = none :=
    (h.kept_below hother.2).trans hfree
  have hdirectory : d.entry? ["tmp"] = some .directory := (h.kept_below hother.1).trans htmp
  have hnames : ∀ name ∈ ["tmp", Plain.scratchName chance], IsEntryName name :=
    List.forall_mem_cons.mpr ⟨by decide, List.forall_mem_singleton.mpr hname⟩
  have hpath : Scratch.path chance d = Path.top.below ["tmp", Plain.scratchName chance] := by
    change Plain.scratchPath chance d = _
    rw [Plain.scratchPath, List.range_succ_eq_map, List.map_cons, List.find?_cons_of_pos]
    · rfl
    · exact Option.isNone_iff_eq_none.mpr hnone
  have htop : [] ∈ siteRooms ["out"] ++ siteFiles ["out"] pages := List.mem_append_left _ (by decide)
  refine ⟨hpath, hpath ▸ ⟨?_, ?_, hnone, ?_, fun names hsome => ?_⟩⟩
  · exact fun name hmem => (hnames name hmem).1
  · exact h.opened.reach hnames (husable [] htop) (List.cons_ne_nil _ _) hdirectory
  · simp
  · by_cases hmem : "out" :: names ∈ siteRooms ["out"] ++ siteFiles ["out"] pages
    · exact husable _ hmem
    · have hkept : d.entry? (["out"] ++ names) = before.entry? ("out" :: names) :=
        h.kept_below hmem
      rw [hkept, hnew] at hsome
      cases hsome

theorem HoldsHostile.isScratch {d : Disk} (h : HoldsHostile d) :
    IsScratch d d ["out"] (Scratch.path 0 d) hostileScratch :=
  (isScratch_of_holdsSite 0 h (by decide) rfl rfl (fun _ => rfl) (by decide) (by decide)).2

/-- Verifying the site of the hostile project finds no difference. -/
theorem hostileProject_verified : ∃ summary w' v,
    (publish .top dumpPath (some sitePath) none none).start hostileProject =
        (.ok (.written summary), w') ∧
      sitePath.child "._a%2fb.html" ∈ summary.artifacts ∧
      w'.disk.locate sitePath = .ok ["out"] ∧
      IsScratch w'.disk w'.disk ["out"] (Scratch.path 0 w'.disk) hostileScratch ∧
      ReadsApart .top dumpPath ["out"] hostileScratch hostileProject w' ∧
      (verify .top dumpPath sitePath).start { w' with chance := 0 } = (.ok ⟨[], [], []⟩, v) ∧
      v.disk = w'.disk := by
  obtain ⟨summary, w', hpublish, hpage, hholds⟩ := exists_published_hostileProject
  have hplace : w'.disk.locate (Path.top.below ["out"]) = .ok ([] ++ ["out"]) :=
    hholds.opened.reach (by decide) (by decide) (by decide) w'.disk.entry?_top
  obtain ⟨hclean, -⟩ := verify_published (by decide) (by decide) (by decide) hpublish hplace rfl
  obtain ⟨v, hverify, hv⟩ := hclean { w' with chance := 0 } hostileScratch rfl hholds.isScratch
    hholds.readsApart
  exact ⟨summary, w', v, hpublish, hpage, hplace, hholds.isScratch, hholds.readsApart, hverify, hv⟩

def chanceSettings : Settings :=
  { Settings.standard with
    pages := { PageSettings.standard with layoutFile := some "layout.html" } }

def chanceProject : World where
  disk :=
    { entries :=
        [(["in.json"], .file (Text.Utf8.encode "[]".toList)),
          (["docgraft.toml"],
            .file (Text.Utf8.encode "[templates]\nlayout_file = \"layout.html\"\n".toList)),
          (["layout.html"],
            .file (Text.Utf8.encode "\x7b\x7b range(1000000000000)|random \x7d\x7d".toList)),
          (["tmp"], .directory)] }

def chanceReads : List String :=
  ["docgraft.toml", "in.json", "layout.html", "home.html", ".gitignore"]

def drawn (chance : Nat) : String := toString (chance % 1000000000000)

theorem resolveTags_drawn {chance : Nat} (hchance : chance < 2) (r : Registry) :
    r.resolveTags (drawn chance) = drawn chance := by
  have hdrawn : drawn 0 = "0" ∧ drawn 1 = "1" := by
    decide +kernel
  obtain rfl | rfl : chance = 0 ∨ chance = 1 := by omega
  · rw [hdrawn.1]
    rfl
  · rw [hdrawn.2]
    rfl

theorem fill_chanceLayout (chance : Nat) (values : List (String × String)) :
    Plain.fill? chance values none
        (Text.unixLines "\x7b\x7b range(1000000000000)|random \x7d\x7d".toList) =
      some (drawn chance).toList := by
  have hvalue : Plain.valueOf? chance values " range(1000000000000)|random ".toList =
      some (drawn chance).toList := by
    have hpieces : (Text.splitAt '|' " range(1000000000000)|random ".toList).map Text.strip =
        ["range(1000000000000)".toList, "random".toList] := by
      decide +kernel
    have hrange : Plain.rangeOf? "range(1000000000000)".toList = some 1000000000000 := by
      decide +kernel
    rw [Plain.valueOf?, hpieces]
    change (Plain.rangeOf? "range(1000000000000)".toList).map _ = _
    rw [hrange]
    rfl
  change (Plain.valueOf? chance values " range(1000000000000)|random ".toList).bind
    (fun value => some (value ++ [])) = _
  rw [hvalue, Option.bind_some, List.append_nil]

theorem chanceSettings_of_toml :
    Settings.ofToml (Path.top.child Settings.fileName)
      "[templates]\nlayout_file = \"layout.html\"\n".toList = .ok chanceSettings := by
  have hparse : Toml.parse "[templates]\nlayout_file = \"layout.html\"\n".toList =
      .ok (.object [("templates", .object [("layout_file", .string "layout.html")])]) := by
    decide +kernel
  have hread : Settings.read
      (.object [("templates", .object [("layout_file", .string "layout.html")])]) =
        .ok chanceSettings := by
    decide +kernel
  rw [Settings.ofToml, hparse]
  dsimp only
  rw [hread]

theorem exists_writeDrawn {before : Disk} {names : List String} {s : Site} {w : World}
    (hplan : Disk.IsPlan .top (siteRooms names) (siteFiles names ["index.html"]))
    (hlook : ∀ name ∈ chanceReads,
      w.disk.look (Path.top.child name) = .ok (chanceProject.disk.entry? [name]))
    (hsheets : s.symbolSheets = [s.homeSheet]) (hchance : w.chance < 2)
    (hw : HoldsSite before names ["index.html"] w.disk) :
    ∃ paths w', (writeSheets s (themeOf .top chanceSettings) (Nav.markup s.nav)
        (Path.top.below names) s.symbolSheets).start w = (.ok paths, w') ∧
      HoldsSite before names ["index.html"] w'.disk ∧
      w'.disk.read (Path.top.below (names ++ ["index.html"])) =
        .ok (Text.Utf8.encode (drawn w.chance).toList) := by
  have htheme : themeOf .top chanceSettings = ⟨[.top], "layout.html", none⟩ := by
    decide +kernel
  have hhome : w.disk.isFile (Path.top.child Page.Standard.home.fileName) = false := by
    rw [Disk.isFile, Disk.find?_of_look (hlook _ (by decide))]
    rfl
  have hdraw := start_drawHome (s := s) (Nav.markup s.nav)
    (congrArg Page.Theme.directories htheme) hhome (by rw [htheme]; decide +kernel)
    (by rw [htheme]; exact Disk.read_of_look (hlook "layout.html" (by decide)))
  rw [run_render_text (fill_chanceLayout _ _), String.ofList_toList] at hdraw
  obtain ⟨_, w', hwrite, hw', -⟩ := completes_writePage hplan List.mem_cons_self
    (Text.Utf8.encode (s.registry.resolveTags (drawn w.chance)).toList) w hw
  have hread := (of_start_write hwrite).2.1
  rw [resolveTags_drawn hchance] at hread
  exact ⟨_, w', hsheets ▸ start_writeSheets_cons hdraw hwrite rfl, hw', hread⟩

theorem exists_published_chanceProject {before : Disk} {names : List String} {w : World}
    (hplan : Disk.IsPlan .top (siteRooms names) (siteFiles names ["index.html"]))
    (hreads : ∀ name ∈ chanceReads,
      [name] ∉ siteRooms names ++ siteFiles names ["index.html"] ∧
        before.entry? [name] = chanceProject.disk.entry? [name])
    (hchance : w.chance < 2)
    (hw : HoldsSite before names ["index.html"] w.disk) :
    ∃ published w', (publish .top dumpPath (some (Path.top.below names)) none none).start w =
        (.ok published, w') ∧ HoldsSite before names ["index.html"] w'.disk ∧
      w'.disk.read (Path.top.below (names ++ ["index.html"])) =
        .ok (Text.Utf8.encode (drawn w.chance).toList) := by
  have hlook : ∀ {d}, HoldsSite before names ["index.html"] d → ∀ name ∈ chanceReads,
      d.look (Path.top.child name) = .ok (chanceProject.disk.entry? [name]) := by
    intro d hd name hname
    obtain ⟨hother, hentry⟩ := hreads name hname
    have hnames : ∀ name ∈ chanceReads,
        IsEntryName name ∧ Disk.IsUsable (Path.top.child name) := by
      decide
    rw [hd.look_child (hnames name hname).1 (hnames name hname).2 hother, hentry]
  have hsettings : (Settings.load .top).start w = (.ok chanceSettings, w) :=
    Settings.start_load_some (hlook hw _ (by decide)) chanceSettings_of_toml
  have hraw : (Doclet.load dumpPath).start w = (.ok [], w) :=
    Doclet.start_load_of_read (Disk.read_of_look (hlook hw "in.json" (by decide))) rfl rfl
  have hprint : (Json.array (List.map Json.object [])).print = .ok "[]" := rfl
  obtain ⟨s, hs, -, hsources, hsheets, htutorials, hsnapshots⟩ :=
    exists_site_nil (rfl : chanceSettings.pages.longnamesInNav = false) hprint
  have hsymbols : Doclet.symbols [] = ([], .ok []) := rfl
  obtain ⟨v, hload, hdisk, hkept⟩ :=
    exists_load .top dumpPath hsymbols rfl (by rw [select_nil]; exact hs) w
  obtain ⟨summary, w', hwrite, hw', hread⟩ := exists_write_planned hplan chanceSettings
    [(names ++ ["index.html"], Text.Utf8.encode (drawn w.chance).toList)]
    (List.forall_mem_singleton.mpr (List.mem_map_of_mem List.mem_cons_self)) rfl rfl htutorials
    hsources hsnapshots
    (fun u hu hsame => by
      have hsame := hsame.trans hkept
      obtain ⟨paths, u', hstart, hu', hread⟩ :=
        exists_writeDrawn hplan (hlook hu) hsheets (hsame ▸ hchance) hu
      refine ⟨paths, u', hstart, hu', fun file hfile => ?_⟩
      rw [List.mem_singleton.mp hfile, ← hsame]
      exact hread)
    (fun d hd => hlook hd _ (by decide)) (hdisk ▸ hw)
  refine ⟨.written summary, w', ?_, hw', hread _ List.mem_cons_self⟩
  rw [publish_eq]
  change (Settings.load .top >>= _).start w = _
  rw [start_bind_ok hsettings, start_publish hraw hload hwrite]

def chanceScratch : Place := ["tmp", "refsite1"]

theorem isPlan_chanceSite :
    Disk.IsPlan .top (siteRooms ["out"]) (siteFiles ["out"] ["index.html"]) := by
  decide

theorem isPlan_chanceScratch :
    Disk.IsPlan .top (siteRooms chanceScratch) (siteFiles chanceScratch ["index.html"]) := by
  decide

theorem holdsSite_chanceProject :
    HoldsSite chanceProject.disk ["out"] ["index.html"] chanceProject.disk :=
  holdsSite_self (by decide)
    (fun q => Disk.isClear_of_entries (by simp [chanceProject]) q q (.inl List.prefix_rfl))
    (by decide) (by decide)

theorem holdsSite_of_made {d e : Disk} (h : HoldsSite chanceProject.disk ["out"] ["index.html"] d)
    (hopened : e.Opened (Path.top.below chanceScratch) chanceScratch)
    (hkept : ∀ q, ¬ chanceScratch <+: q → e.entry? q = d.entry? q)
    (hempty : ∀ q, chanceScratch <+: q → q ≠ chanceScratch → e.entry? q = none) :
    HoldsSite e chanceScratch ["index.html"] e := by
  have hway : ∀ names ∈ siteRooms chanceScratch,
      names <+: chanceScratch ∨ chanceScratch <+: names := by
    decide
  have hbelow : ∀ names ∈ siteFiles chanceScratch ["index.html"],
      chanceScratch <+: names ∧ names ≠ chanceScratch := by
    decide
  refine holdsSite_self hopened.tree (fun q => ?_) (fun names hnames => ?_) fun names hnames => ?_
  · by_cases hq : chanceScratch <+: q
    · exact hopened.free q hq
    · rw [hkept q hq]
      exact h.opened.free q List.nil_prefix
  · by_cases heq : names = chanceScratch
    · exact .inr (heq ▸ hopened.directory)
    · obtain habove | hnone := hway names hnames
      · exact .inr (hopened.tree.entry_above hopened.directory habove heq)
      · exact .inl (hempty names hnone heq)
  · obtain ⟨hbehind, hne⟩ := hbelow names hnames
    rw [hempty names hbehind hne]
    nofun

theorem opened_of_page {before d : Disk} {names : List String} {bytes : List UInt8}
    (h : HoldsSite before names ["index.html"] d) (hne : names ≠ [])
    (hnames : ∀ name ∈ names ++ ["index.html"], IsEntryName name)
    (husable : Disk.IsUsable (Path.top.below names))
    (hpage : d.entry? (names ++ ["index.html"]) = some (.file bytes)) :
    d.Opened (Path.top.below names) names := by
  have hparent := h.opened.tree.parent_of_entry hpage
  rw [List.dropLast_concat] at hparent
  exact h.opened.of_directory (fun name hname => hnames name (List.mem_append_left _ hname))
    husable hne hparent

/-- The project is published apart from all that it is made of, and verified at once the start page
differs. -/
theorem chanceProject_differs : ∃ published w' difference v,
    (publish .top dumpPath (some sitePath) none none).start chanceProject = (.ok published, w') ∧
      w'.disk.locate sitePath = .ok ["out"] ∧ chanceProject.disk.entry? ["out"] = none ∧
      (∀ name ∈ chanceReads, w'.disk.Apart (["out"] <+: ·) (Path.top.child name)) ∧
      (verify .top dumpPath sitePath).start { w' with chance := 1 } = (.ok difference, v) ∧
      "index.html" ∈ difference.mismatches := by
  have hreads : ∀ name ∈ chanceReads, name ≠ Path.up ∧ ¬ ["out"] <+: [name] ∧
      [name] ∉ siteRooms ["out"] ++ siteFiles ["out"] ["index.html"] := by
    decide
  have hreads' : ∀ name ∈ chanceReads, ¬ chanceScratch <+: [name] ∧
      [name] ∉ siteRooms chanceScratch ++ siteFiles chanceScratch ["index.html"] := by
    decide
  obtain ⟨published, w', hpublish, hholds, hread⟩ := exists_published_chanceProject
    isPlan_chanceSite (fun name hname => ⟨(hreads name hname).2.2, rfl⟩) Nat.zero_lt_two
    holdsSite_chanceProject
  obtain ⟨hpath, hscratch⟩ :=
    isScratch_of_holdsSite 1 hholds (by decide) rfl rfl (fun _ => rfl) (by decide) (by decide)
  obtain ⟨e, hmade, hopened, hkept, hempty⟩ := hscratch.exists_made hholds.opened.tree
  rw [hpath] at hopened
  obtain ⟨again, u, hagain, hholds', hread'⟩ := exists_published_chanceProject
    (w := { w' with disk := e, chance := 1 }) isPlan_chanceScratch
    (fun name hname => ⟨(hreads' name hname).2,
      (hkept _ (hreads' name hname).1).trans (hholds.kept_below (hreads name hname).2.2)⟩)
    Nat.one_lt_two (holdsSite_of_made hholds hopened hkept hempty)
  -- The first start page is still there, and both directories can be listed.
  have hpage := (hholds.opened.read_iff (by decide) (by decide) (by decide)).mp hread
  have hpage' : u.disk.entry? ["out", "index.html"] =
      some (.file (Text.Utf8.encode (drawn 0).toList)) :=
    (hholds'.kept_below (by decide)).trans ((hkept _ (by decide)).trans hpage)
  have hagainPage := (hholds'.opened.read_iff (by decide) (by decide) (by decide)).mp hread'
  have hsite := opened_of_page hholds (by decide) (by decide) (by decide) hpage
  have hagainSite := opened_of_page hholds' (by decide) (by decide) (by decide) hagainPage
  have hsite' : u.disk.Opened sitePath ["out"] :=
    hholds'.opened.of_directory (by decide) (by decide) (by decide)
      (hholds'.opened.tree.parent_of_entry hpage')
  have hfirst : u.disk.read (sitePath.below ["index.html"]) =
      .ok (Text.Utf8.encode (drawn 0).toList) :=
    (hsite'.read_iff (by decide) (by decide) (by decide)).mpr hpage'
  have hdirectory : w'.disk.isDirectory sitePath = true :=
    Disk.isDirectory_iff.mpr ⟨_, hsite.leads, hsite.directory⟩
  have hverify := start_verify (w := { w' with chance := 1 }) hdirectory hmade (hpath ▸ hagain)
  rw [hpath] at hverify
  have htells := Disk.tells_difference hsite' hagainSite
  refine ⟨published, w', _, _, hpublish, hsite.leads, rfl,
    fun name hname => apart_child hholds (hreads name hname).1 (by decide) (hreads name hname).2.1,
    hverify, (htells.mismatches.mem _).mpr ⟨["index.html"], ⟨?_, ?_, ?_⟩, rfl⟩⟩
  · exact ⟨by decide, by decide, Disk.isFile_of_read hfirst⟩
  · exact ⟨by decide, by decide, Disk.isFile_of_read hread'⟩
  · have hne : Text.Utf8.encode (drawn 0).toList ≠ Text.Utf8.encode (drawn 1).toList := by
      decide +kernel
    exact fun heq => hne (Except.ok.inj (hfirst.symm.trans (heq.trans hread')))

end Plain

end Site

end Refsite
