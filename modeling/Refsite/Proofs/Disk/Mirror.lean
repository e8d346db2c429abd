import Refsite.Proofs.Disk.Opened
import Refsite.Proofs.Disk.Steady
namespace Refsite

open Refsite.Path

/-- Two directories that are written to, on a disk each, and the disk that the first is to become.
What will stand in the first directory has room in the second. -/
structure Mirror where
  goal : Disk
  out : Path
  here : Place
  scratch : Path
  there : Place
  usable : ∀ names, (goal.entry? (here ++ names)).isSome → Disk.IsUsable (scratch.below names)

namespace Mirror

variable {m : Mirror} {d d' e : Disk} {names : List String} {bytes : List UInt8} {source : Path}

def Written (m : Mirror) (q : Place) : Prop := m.here <+: q ∨ m.there <+: q

/-- Outside of the first directory the disk is what it is to become. -/
structure Fits (m : Mirror) (d : Disk) : Prop where
  opened : d.Opened m.out m.here
  outside : ∀ q, ¬ m.here <+: q → d.entry? q = m.goal.entry? q

/-- The second directory holds the files of the first, and directories only where the first has
some; outside of them both disks are what the first is to become. -/
structure Reflects (m : Mirror) (d e : Disk) : Prop where
  fits : m.Fits d
  second : e.Opened m.scratch m.there
  besides : ∀ q, ¬ m.Written q → e.entry? q = m.goal.entry? q
  file : ∀ names bytes, e.entry? (m.there ++ names) = some (.file bytes) ↔
    d.entry? (m.here ++ names) = some (.file bytes)
  directory : ∀ names, e.entry? (m.there ++ names) = some .directory →
    d.entry? (m.here ++ names) = some .directory
  reached : ∀ names bytes, d.entry? (m.here ++ names) = some (.file bytes) →
    d.locate (m.out.below names) = .ok (m.here ++ names)

theorem Fits.like (h : m.Fits d) : m.goal.Like m.Written d :=
  ⟨h.opened.tree, fun q hq => h.outside q fun hhere => hq (.inl hhere)⟩

theorem Fits.makeDirectories (h : m.Fits d) (hnames : ∀ name ∈ names, IsEntryName name)
    (hmade : d.makeDirectories (m.out.below names) = .ok d') : m.Fits d' := by
  obtain ⟨hopened, hmakes⟩ := h.opened.of_makeDirectories hnames hmade
  refine ⟨hopened, fun q hq => ?_⟩
  rw [hmakes.kept q fun init _ heq => hq (heq ▸ List.prefix_append _ _)]
  exact h.outside q hq

theorem Fits.write (h : m.Fits d) (hnames : ∀ name ∈ names, IsEntryName name) (hne : names ≠ [])
    (hwrite : d.write (m.out.below names) bytes = .ok d') : m.Fits d' := by
  obtain ⟨hopened, -, rfl⟩ := h.opened.of_write hnames hne hwrite
  refine ⟨hopened, fun q hq => ?_⟩
  rw [Disk.entry?_put d (List.append_ne_nil_of_right_ne_nil _ hne), if_neg]
  · exact h.outside q hq
  · rintro rfl
    exact hq (List.prefix_append _ _)

theorem Reflects.like_second (h : m.Reflects d e) : m.goal.Like m.Written e :=
  ⟨h.second.tree, h.besides⟩

theorem reflects_of_empty (h : m.Fits d) (hsecond : e.Opened m.scratch m.there)
    (hbesides : ∀ q, ¬ m.Written q → e.entry? q = m.goal.entry? q)
    (hfirst : ∀ q, m.here <+: q → d.entry? q = none ∨ d.entry? q = some .directory)
    (hempty : ∀ q, m.there <+: q → q ≠ m.there → e.entry? q = none) : m.Reflects d e := by
  have hnofile : ∀ names bytes, d.entry? (m.here ++ names) ≠ some (.file bytes) := by
    intro names bytes hfile
    have hroom := hfirst _ (List.prefix_append _ names)
    rw [hfile] at hroom
    obtain hroom | hroom := hroom <;> cases hroom
  have hnothing : ∀ names entry, e.entry? (m.there ++ names) = some entry →
      names = [] ∧ entry = .directory := by
    intro names entry hentry
    by_cases hnil : names = []
    · subst hnil
      rw [List.append_nil, hsecond.directory] at hentry
      exact ⟨rfl, (Option.some.inj hentry).symm⟩
    · rw [hempty _ (List.prefix_append _ _) fun heq => hnil (List.append_right_eq_self.mp heq)]
        at hentry
      cases hentry
  refine ⟨h, hsecond, hbesides, fun names bytes => ⟨fun hfile => ?_, fun hfile => ?_⟩,
    fun names hdirectory => ?_, fun names bytes hfile => absurd hfile (hnofile names bytes)⟩
  · cases (hnothing _ _ hfile).2
  · exact absurd hfile (hnofile names bytes)
  · obtain ⟨rfl, -⟩ := hnothing _ _ hdirectory
    rw [List.append_nil, h.opened.directory]

theorem usable_of_grows (hgoal : d.Grows m.goal)
    (hsome : (d.entry? (m.here ++ names)).isSome = true) : Disk.IsUsable (m.scratch.below names) :=
  m.usable names (hgoal.isSome_entry hsome)

theorem Reflects.makeDirectories (h : m.Reflects d e) (hnames : ∀ name ∈ names, IsEntryName name)
    (hmade : d.makeDirectories (m.out.below names) = .ok d') (hgoal : d'.Grows m.goal) :
    ∃ e', e.makeDirectories (m.scratch.below names) = .ok e' ∧ m.Reflects d' e' ∧
      e'.entry? (m.there ++ names) = some .directory := by
  obtain ⟨-, hmakes⟩ := h.fits.opened.of_makeDirectories hnames hmade
  have husable : ∀ init, init <+: names → Disk.IsUsable (m.scratch.below init) := fun init hinit =>
    usable_of_grows hgoal (by rw [hmakes.made init hinit, Option.isSome_some])
  have hroom : ∀ init, init <+: names → e.entry? (m.there ++ init) = none ∨
      e.entry? (m.there ++ init) = some .directory := by
    intro init hinit
    cases hentry : e.entry? (m.there ++ init) with
    | none => exact .inl rfl
    | some entry =>
      cases entry with
      | directory => exact .inr rfl
      | link target => exact absurd hentry (h.second.free _ (List.prefix_append _ _) target)
      | file bytes =>
        have hfile := (h.file init bytes).mp hentry
        have hmade := hmakes.room init hinit
        rw [hfile] at hmade
        obtain hmade | hmade := hmade <;> cases hmade
  obtain ⟨e', he'⟩ := h.second.exists_makeDirectories hnames husable hroom
  obtain ⟨hopened', hmakes'⟩ := h.second.of_makeDirectories hnames he'
  have hgrows := (Disk.makeDirectories_spec hmade).1.grows
  refine ⟨e', he', ⟨h.fits.makeDirectories hnames hmade, hopened', ?besides, ?file, ?directory,
    ?reached⟩, hmakes'.made names List.prefix_rfl⟩
  case besides =>
    intro q hq
    rw [hmakes'.kept q fun init _ heq => hq (.inr (heq ▸ List.prefix_append _ _))]
    exact h.besides q hq
  case file =>
    intro more bytes
    by_cases hmore : more <+: names
    · rw [hmakes.made more hmore, hmakes'.made more hmore]
    · rw [hmakes.kept_below hmore, hmakes'.kept_below hmore]
      exact h.file more bytes
  case directory =>
    intro more hdirectory
    by_cases hmore : more <+: names
    · exact hmakes.made more hmore
    · rw [hmakes'.kept_below hmore] at hdirectory
      rw [hmakes.kept_below hmore]
      exact h.directory more hdirectory
  case reached =>
    intro more bytes hfile
    by_cases hmore : more <+: names
    · rw [hmakes.made more hmore] at hfile
      cases hfile
    · rw [hmakes.kept_below hmore] at hfile
      exact hgrows.locate (h.reached more bytes hfile)

/-- What is written to the first can be written to the second, once the directory above is there. -/
theorem Reflects.write (h : m.Reflects d e) (hnames : ∀ name ∈ names, IsEntryName name)
    (hne : names ≠ []) (hwrite : d.write (m.out.below names) bytes = .ok d')
    (hgoal : d'.Grows m.goal)
    (hparent : e.entry? (m.there ++ names.dropLast) = some .directory) :
    ∃ e', e.write (m.scratch.below names) bytes = .ok e' ∧ m.Reflects d' e' := by
  have hfits := h.fits.write hnames hne hwrite
  obtain ⟨-, hdirectory, rfl⟩ := h.fits.opened.of_write hnames hne hwrite
  have htop : m.here ++ names ≠ [] := List.append_ne_nil_of_right_ne_nil _ hne
  have htop' : m.there ++ names ≠ [] := List.append_ne_nil_of_right_ne_nil _ hne
  have husable : Disk.IsUsable (m.scratch.below names) := by
    refine usable_of_grows hgoal ?_
    rw [Disk.entry?_put d htop, if_pos rfl, Option.isSome_some]
  have hwrite' := h.second.write hnames husable hne hparent
    (fun hentry => hdirectory (h.directory names hentry)) bytes
  obtain ⟨hopened', -, -⟩ := h.second.of_write hnames hne hwrite'
  have hgrows := (Disk.write_spec hwrite).1.grows
  have hplace : ∀ {place : Place} {more : List String},
      place ++ more = place ++ names ↔ more = names := List.append_right_inj _
  refine ⟨_, hwrite', hfits, hopened', ?besides, ?file, ?directory, ?reached⟩
  case besides =>
    intro q hq
    rw [Disk.entry?_put e htop', if_neg]
    · exact h.besides q hq
    · rintro rfl
      exact hq (.inr (List.prefix_append _ _))
  case file =>
    intro more bytes'
    rw [Disk.entry?_put d htop, Disk.entry?_put e htop']
    by_cases heq : more = names
    · rw [heq, if_pos rfl, if_pos rfl]
    · rw [if_neg (mt hplace.mp heq), if_neg (mt hplace.mp heq)]
      exact h.file more bytes'
  case directory =>
    intro more
    rw [Disk.entry?_put d htop, Disk.entry?_put e htop']
    by_cases heq : more = names
    · rw [heq, if_pos rfl, if_pos rfl]
      nofun
    · rw [if_neg (mt hplace.mp heq), if_neg (mt hplace.mp heq)]
      exact h.directory more
  case reached =>
    intro more bytes' hfile
    by_cases heq : more = names
    · subst heq
      obtain ⟨-, hread⟩ := Disk.write_spec hwrite
      obtain ⟨q, hq, -⟩ := Disk.read_ok_iff.mp hread
      rw [hq, hfits.opened.eq_of_locate hnames hq]
    · rw [Disk.entry?_put d htop, if_neg (mt hplace.mp heq)] at hfile
      exact hgrows.locate (h.reached more bytes' hfile)

theorem Reflects.copy (h : m.Reflects d e) (hnames : ∀ name ∈ names, IsEntryName name)
    (hne : names ≠ []) (hsource : m.goal.Apart m.Written source)
    (hcopy : d.copy source (m.out.below names) = .ok d') (hgoal : d'.Grows m.goal)
    (hparent : e.entry? (m.there ++ names.dropLast) = some .directory) :
    ∃ e', e.copy source (m.scratch.below names) = .ok e' ∧ m.Reflects d' e' := by
  rw [Disk.copy] at hcopy
  split at hcopy
  · cases hcopy
  · obtain ⟨bytes, hread, hwrite⟩ := of_bind_ok hcopy
    obtain ⟨e', hwrite', hreflects⟩ := h.write hnames hne hwrite hgoal hparent
    have hread' : e.read source = .ok bytes := by
      rw [hsource.read h.like_second.agrees, ← hsource.read h.fits.like.agrees, hread]
    have hother : e.isSame source (m.scratch.below names) = false := by
      rw [Bool.eq_false_iff]
      intro hsame
      obtain ⟨q, hq, hq', -⟩ := Disk.isSame_iff.mp hsame
      rw [hsource.locate h.like_second.agrees] at hq
      obtain ⟨-, -, hleads⟩ := Disk.of_reach_ok hq
      refine hsource q hleads.meets (.inr ?_)
      rw [h.second.eq_of_locate hnames hq']
      exact List.prefix_append _ _
    refine ⟨e', ?_, hreflects⟩
    rw [Disk.copy, hother, if_neg Bool.false_ne_true, hread']
    exact hwrite'

end Mirror

namespace Run

variable {α β γ δ : Type} {m : Mirror} {R : α → β → Prop} {S : γ → δ → Prop} {w w' v : World}
  {names : List String} {source : Path}

/-- A run that writes to the first directory from a world on, and one that goes along with it in the
second: where the first comes to a result, as the disk goes on to grow into what it is to become, the
second comes to a result that is related to it. -/
structure Tracks (m : Mirror) (R : α → β → Prop) (w : World) (x : Run α) (y : Run β) : Prop where
  first : ∀ {v a}, x.start w = (.ok a, v) → m.Fits w.disk →
    w.disk.Grows v.disk ∧ m.Fits v.disk ∧ ∃ b, R a b
  both : ∀ {w' v a}, x.start w = (.ok a, v) → v.disk.Grows m.goal → m.Reflects w.disk w'.disk →
    ∃ b v', y.start w' = (.ok b, v') ∧ m.Reflects v.disk v'.disk ∧ R a b

theorem Tracks.bind {x : Run α} {y : Run β} {f : α → Run γ} {g : β → Run δ}
    (hxy : Tracks m R w x y)
    (hfg : ∀ a b u, x.start w = (.ok a, u) → R a b → Tracks m S u (f a) (g b)) :
    Tracks m S w (x >>= f) (y >>= g) := by
  constructor
  · intro v c h hw
    obtain ⟨a, u, hx, hf⟩ := of_start_bind h
    obtain ⟨hbefore, hu, b, hb⟩ := hxy.first hx hw
    obtain ⟨hafter, hv, d, hd⟩ := (hfg a b u hx hb).first hf hu
    exact ⟨hbefore.trans hafter, hv, d, hd⟩
  · intro w' v c h hgoal hw
    obtain ⟨a, u, hx, hf⟩ := of_start_bind h
    obtain ⟨-, hu, b, hb⟩ := hxy.first hx hw.fits
    obtain ⟨hafter, -⟩ := (hfg a b u hx hb).first hf hu
    obtain ⟨b, u', hy, hu', hb⟩ := hxy.both hx (hafter.trans hgoal) hw
    obtain ⟨d, v', hg, hv', hd⟩ := (hfg a b u hx hb).both hf hgoal hu'
    exact ⟨d, v', by rw [start_bind_ok hy, hg], hv', hd⟩

theorem tracks_pure {a : α} {b : β} (hR : R a b) : Tracks m R w (pure a) (pure b) := by
  constructor
  · intro v c h hw
    obtain ⟨rfl, rfl⟩ := of_start_pure h
    exact ⟨.refl _, hw, b, hR⟩
  · intro w' v c h _ hw
    obtain ⟨rfl, rfl⟩ := of_start_pure h
    exact ⟨b, w', rfl, hw, hR⟩

theorem tracks_of_fits {x : Run α} {y : Run β} (h : m.Fits w.disk → Tracks m R w x y) :
    Tracks m R w x y :=
  ⟨fun hx hw => (h hw).first hx hw, fun hx hgoal hw => (h hw.fits).both hx hgoal hw⟩

def tracking (m : Mirror) : Logic where
  Holds R w x y := Tracks m R w x y
  pure _ hR := tracks_pure hR
  bind hxy hfg := hxy.bind hfg

abbrev Mirrors (m : Mirror) (w : World) (x : Run α) (y : Run β) : Prop := (tracking m).Along w x y

theorem mirrors_pure (a : α) (b : β) : Mirrors m w (pure a) (pure b) := tracks_pure trivial

theorem SteadyTo.tracks {Q : α → Prop} {x : Run α} (hx : x.SteadyTo m.Written m.goal Q) :
    Tracks m (fun a b => b = a ∧ Q a) w x x := by
  constructor
  · intro v a h hw
    obtain ⟨-, -, hv, -, ha⟩ := hx _ _ _ _ hw.like hw.like h
    rw [hv]
    exact ⟨.refl _, hw, a, rfl, ha⟩
  · intro w' v a h _ hw
    obtain ⟨v', h', hv, hv', ha⟩ := hx _ _ _ _ hw.fits.like hw.like_second h
    rw [hv]
    exact ⟨a, v', h', hv' ▸ hw, rfl, ha⟩

theorem SteadyTo.mirrored {Q : α → Prop} {x : Run α} (hx : x.SteadyTo m.Written m.goal Q) :
    (tracking m).Alike w x x := by
  constructor
  · intro v a h hw
    obtain ⟨hgrows, hfits, -⟩ := hx.tracks.first h hw
    exact ⟨hgrows, hfits, a, rfl⟩
  · intro w' v a h hgoal hw
    obtain ⟨b, v', h', hv, rfl, -⟩ := hx.tracks.both h hgoal hw
    exact ⟨b, v', h', hv, rfl⟩

theorem mirrors_remark (r r' : Remark) : Mirrors m w (remark r) (remark r') := by
  constructor
  · intro v u h hw
    cases h
    exact ⟨.refl _, hw, (), trivial⟩
  · intro w' v u h _ hw
    cases h
    exact ⟨(), _, start_remark r' w', hw, trivial⟩

theorem mirrors_makeDirectories (hnames : ∀ name ∈ names, IsEntryName name) :
    Mirrors m w (makeDirectories (m.out.below names)) (makeDirectories (m.scratch.below names)) := by
  constructor
  · intro v u h hw
    have hmade := of_start_change h
    exact ⟨(Disk.makeDirectories_spec hmade).1.grows, hw.makeDirectories hnames hmade, (), trivial⟩
  · intro w' v u h hgoal hw
    obtain ⟨e', hmade, hreflects, -⟩ := hw.makeDirectories hnames (of_start_change h) hgoal
    exact ⟨(), _, start_change hmade, hreflects, trivial⟩

theorem mirrors_put {f g : Disk → Except DiskError Disk} (hnames : ∀ name ∈ names, IsEntryName name)
    (hne : names ≠ [])
    (hfirst : ∀ {d d'}, m.Fits d → f d = .ok d' → d.Grows d' ∧ m.Fits d')
    (hboth : ∀ {d d' e}, m.Reflects d e → f d = .ok d' → d'.Grows m.goal →
      e.entry? (m.there ++ names.dropLast) = some .directory →
      ∃ e', g e = .ok e' ∧ m.Reflects d' e') :
    Mirrors m w (makeDirectories (m.out.below names).parent >>= fun _ => change f)
      (makeDirectories (m.scratch.below names).parent >>= fun _ => change g) := by
  have hparent : ∀ base : Path, (base.below names).parent = base.below names.dropLast := by
    intro base
    rw [parent, below, below, List.dropLast_append_of_ne_nil hne]
  have hinit : ∀ name ∈ names.dropLast, IsEntryName name := fun name hname =>
    hnames name (List.dropLast_subset _ hname)
  rw [hparent, hparent]
  constructor
  · intro v u h hw
    obtain ⟨_, w₁, hmade, hchange⟩ := of_start_bind h
    have hmade := of_start_change hmade
    obtain ⟨hgrows, hfits⟩ := hfirst (hw.makeDirectories hinit hmade) (of_start_change hchange)
    exact ⟨(Disk.makeDirectories_spec hmade).1.grows.trans hgrows, hfits, (), trivial⟩
  · intro w' v u h hgoal hw
    obtain ⟨_, w₁, hmade, hchange⟩ := of_start_bind h
    have hmade := of_start_change hmade
    have hchange := of_start_change hchange
    obtain ⟨hgrows, -⟩ := hfirst (hw.fits.makeDirectories hinit hmade) hchange
    obtain ⟨e₁, hmade', hreflects, hdirectory⟩ :=
      hw.makeDirectories hinit hmade (hgrows.trans hgoal)
    obtain ⟨e', hchange', hreflects'⟩ := hboth hreflects hchange hgoal hdirectory
    refine ⟨(), { w' with disk := e' }, ?_, hreflects', trivial⟩
    have hmade' : (makeDirectories (m.scratch.below names.dropLast)).start w' = _ :=
      start_change hmade'
    rw [start_bind_ok hmade', start_change hchange']

theorem mirrors_write (hnames : ∀ name ∈ names, IsEntryName name) (hne : names ≠ [])
    (bytes : List UInt8) :
    Mirrors m w (write (m.out.below names) bytes) (write (m.scratch.below names) bytes) :=
  mirrors_put hnames hne
    (fun hw hwrite => ⟨(Disk.write_spec hwrite).1.grows, hw.write hnames hne hwrite⟩)
    fun hw hwrite hgoal hdirectory => hw.write hnames hne hwrite hgoal hdirectory

theorem mirrors_copy (hnames : ∀ name ∈ names, IsEntryName name) (hne : names ≠ [])
    (hsource : m.goal.Apart m.Written source) :
    Mirrors m w (copy source (m.out.below names)) (copy source (m.scratch.below names)) := by
  refine mirrors_put hnames hne (fun hw hcopy => ⟨(Disk.copy_spec hcopy).grows, ?_⟩)
    fun hw hcopy hgoal hdirectory => hw.copy hnames hne hsource hcopy hgoal hdirectory
  rw [Disk.copy] at hcopy
  split at hcopy
  · cases hcopy
  · obtain ⟨bytes, -, hwrite⟩ := of_bind_ok hcopy
    exact hw.write hnames hne hwrite

end Run

end Refsite
