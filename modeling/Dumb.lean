import Dumb.Arrs.AltMount
import Dumb.Arrs.Roots
import Dumb.Auth.Groups
import Dumb.Auth.Theorems
import Dumb.Authelia.Link
import Dumb.AutoUpdate.Backups
import Dumb.AutoUpdate.Schedule
import Dumb.AutoUpdate.Selection
import Dumb.Config.Commits
import Dumb.Config.Identity
import Dumb.Config.Legacy
import Dumb.Diagnostics.Events
import Dumb.Download.Assets
import Dumb.Duplicates.Theorems
import Dumb.InfiniDysk.Activation
import Dumb.InfiniDysk.Repath
import Dumb.InfiniDysk.Rewrite
import Dumb.InfiniDysk.Theorems
import Dumb.Install.Branch
import Dumb.Install.Clearing
import Dumb.Install.Theorems
import Dumb.InstallCache.Artifacts
import Dumb.InstallCache.Prune
import Dumb.Lifecycle.Threads
import Dumb.Logs.Pump
import Dumb.Logs.Retention
import Dumb.Logs.Signals
import Dumb.Logs.Theorems
import Dumb.Media.Theorems
import Dumb.Mediastorm.Closure
import Dumb.Mediastorm.Theorems
import Dumb.Metrics.History
import Dumb.Metrics.Prune
import Dumb.Metrics.Series
import Dumb.Metrics.Theorems
import Dumb.Notifications.Edges
import Dumb.Oci.Theorems
import Dumb.Onboarding.Theorems
import Dumb.Plex.Theorems
import Dumb.Postgres.Batches
import Dumb.Postgres.Contents
import Dumb.Postgres.Editor
import Dumb.Postgres.Npgsql
import Dumb.Postgres.Refreshed
import Dumb.Postgres.Restore
import Dumb.Postgres.Theorems
import Dumb.Process.Theorems
import Dumb.Prowlarr.Theorems
import Dumb.Rclone.Budget
import Dumb.Rclone.Flags
import Dumb.Reset.Config
import Dumb.Seerr.Theorems
import Dumb.Startup.Theorems
import Dumb.Status.Theorems
import Dumb.Symlink.Jobs
import Dumb.Symlink.Theorems
import Dumb.User.Theorems
