import Dumb.Lib.Json

/-!
# The shipped configuration

`utils/dumb_config.json`, service by service.
-/

namespace Dumb.Config.Shipped

open Py

def puid : Json := .int 1000

def pgid : Json := .int 1000

def tz : Json := .str ""

def dataRoot : Json := .str "/data"

def dumb : Json := .obj [
  ("log_level", .str "INFO"), ("log_name", .str "DUMB"), ("log_dir", .str "/log"), ("log_count", .int 2),
  ("log_size", .str "10M"), ("color_log", .bool true), ("plex_token", .str ""), ("plex_address", .str ""),
  ("github_token", .str ""), ("github_rate_limit_max_wait_seconds", .int 300), ("github_username", .str ""),
  ("onboarding_completed", .bool false),
  ("ui", .obj [
    ("log_timestamp", .obj [("dateOrder", .str "MDY"), ("hourFormat", .str "12"), ("zeroPad", .bool true)]),
    ("sidebar", .obj [
      ("show_all_services", .bool false), ("compact_mode", .bool false), ("tools_open", .bool false),
      ("auto_hide_on_navigation", .bool true), ("quick_filter", .str "all"), ("service_search", .str ""),
      ("service_order", .arr []), ("saved_views", .arr []), ("active_saved_view_id", .str ""),
      ("service_shortcuts", .obj []), ("geek_mode", .bool false)])]),
  ("startup", .obj [
    ("readiness_timeout_seconds", .int 300), ("readiness_poll_interval_seconds", .int 5),
    ("stabilization_seconds", .int 15)]),
  ("install_cache", .obj [
    ("enabled", .bool true), ("path", .str "/config/.cache/dumb"), ("max_size_gib", .int 25),
    ("artifact_retention_count", .int 2), ("clean_retry", .bool true), ("max_download_size_mb", .int 4096),
    ("max_archive_entries", .int 250000), ("max_unpacked_size_gib", .int 50),
    ("activation_health_timeout_seconds", .int 120), ("activation_stabilization_seconds", .int 15)]),
  ("media_protection", .obj [
    ("enabled", .bool true), ("recovery_stabilization_seconds", .int 30),
    ("recovery_timeout_seconds", .int 180), ("monitor_interval_seconds", .int 5), ("services", .arr [])]),
  ("auto_restart", .obj [
    ("enabled", .bool false), ("restart_on_unhealthy", .bool true), ("healthcheck_interval", .int 30),
    ("unhealthy_threshold", .int 3), ("max_restarts", .int 3), ("window_seconds", .int 300),
    ("backoff_seconds", .arr [.int 5, .int 15, .int 45, .int 120]), ("grace_period_seconds", .int 30),
    ("services", .arr [])]),
  ("ai", .obj [
    ("enabled", .bool false), ("provider", .str "ollama"), ("base_url", .str "http://127.0.0.1:11434"),
    ("model", .str ""), ("api_key", .str ""), ("active_profile_id", .str ""), ("profiles", .arr []),
    ("timeout_sec", .int 60), ("temperature", .float (1 / 5)), ("max_log_chars", .int 20000),
    ("include_logs", .bool true), ("include_service_config", .bool true),
    ("include_dependency_graph", .bool true), ("include_docs_context", .bool true),
    ("include_process_list", .bool false), ("max_docs_chars", .int 12000), ("diagnostic_window_hours", .int 24),
    ("comparison_mode", .str "previous_period"), ("deep_log_scan", .bool true), ("max_log_scan_mb", .int 128),
    ("include_metrics", .bool true), ("include_change_history", .bool true),
    ("include_native_diagnostics", .bool true)]),
  ("ffprobe_monitor", .obj [
    ("enabled", .bool true), ("interval_sec", .int 10), ("min_process_age_sec", .int 30),
    ("min_poke_interval_sec", .int 60), ("poke_timeout_sec", .int 30), ("max_pokes_per_cycle", .int 3),
    ("cache_ttl_sec", .int 3600), ("ffprobe_path", .str "ffprobe")]),
  ("api_service", .obj [
    ("enabled", .bool true), ("process_name", .str "DUMB API"), ("log_level", .str "INFO"),
    ("host", .str "127.0.0.1"), ("port", .int 8000)]),
  ("frontend", .obj [
    ("enabled", .bool true), ("process_name", .str "DUMB Frontend"), ("repo_owner", .str "nicocapalbo"),
    ("repo_name", .str "dmbdb"), ("release_version_enabled", .bool false), ("release_version", .str "v1.2.0"),
    ("commit_sha", .str ""), ("branch_enabled", .bool false), ("branch", .str "main"),
    ("suppress_logging", .bool false), ("log_level", .str "INFO"), ("log_file", .str "/log/dumb_frontend.log"),
    ("origins", .arr [.str "http://0.0.0.0:3005"]), ("host", .str "0.0.0.0"), ("port", .int 3005),
    ("auto_update", .bool false), ("auto_update_mode", .str "install"), ("auto_update_interval", .int 24),
    ("auto_update_start_time", .str "04:00"), ("clear_on_update", .bool true), ("exclude_dirs", .arr []),
    ("platforms", .arr [.str "pnpm"]), ("command", .arr [.str "node", .str ".output/server/index.mjs"]),
    ("config_dir", .str "/dumb/frontend"), ("env", .obj [])]),
  ("metrics", .obj [
    ("system_scope", .str "auto"), ("filesystem_paths", .arr [.str "/"]),
    ("network_interfaces", .arr [.str "all"]), ("history_enabled", .bool true),
    ("history_interval_sec", .int 5), ("history_retention_days", .int 7), ("history_max_file_mb", .int 50),
    ("history_max_total_mb", .int 100), ("history_dir", .str "/config/metrics"),
    ("storage", .obj [
      ("provider", .str "sqlite"), ("sqlite_path", .str "/config/metrics/metrics.sqlite"),
      ("migrate_jsonl", .bool true),
      ("postgresql", .obj [
        ("database", .str "dumb_metrics"), ("schema", .str "public"), ("local_retention_days", .int 7),
        ("retry_interval_sec", .int 60)])]),
    ("database_health", .obj [
      ("enabled", .bool false), ("interval_sec", .int 60), ("log_tail_bytes", .int 262144),
      ("services", .obj [])]),
    ("plex_status", .obj [("enabled", .bool false), ("interval_sec", .int 300)])]),
  ("notifications", .obj [
    ("enabled", .bool false), ("monitor_interval_sec", .int 30), ("history_retention_days", .int 30),
    ("max_attempts", .int 3), ("retry_base_sec", .int 30), ("destinations", .arr []),
    ("thresholds", .obj [
      ("cpu_percent", .int 85), ("memory_percent", .int 85), ("disk_percent", .int 90),
      ("inode_percent", .int 90), ("database_pressure", .str "high"), ("duration_sec", .int 60)])])]

def traefik : Json := .obj [
  ("enabled", .bool false), ("process_name", .str "Traefik"), ("pinned_version", .str "v3.6.6"),
  ("suppress_logging", .bool false), ("log_level", .str "INFO"), ("log_file", .str "/log/traefik.log"),
  ("access_log_file", .str "/log/traefik_access.log"), ("port", .int 18080),
  ("entrypoints", .obj [
    ("web", .obj [
      ("address", .str ":18080"),
      ("http", .obj [("encodedCharacters", .obj [("allowEncodedSlash", .bool true)])])])]),
  ("command", .arr [.str "/traefik/traefik", .str "--configFile=/config/traefik/traefik.yml"]),
  ("config_dir", .str "/config/traefik"), ("config_file", .str "/config/traefik/traefik.yml")]

def traefikProxyAdmin : Json := .obj [
  ("enabled", .bool false), ("process_name", .str "Traefik Proxy Admin"), ("repo_owner", .str "I-am-PUID-0"),
  ("repo_name", .str "traefik-proxy-admin"), ("release_version_enabled", .bool false),
  ("release_version", .str "latest"), ("commit_sha", .str ""), ("branch_enabled", .bool false),
  ("branch", .str "main"), ("suppress_logging", .bool false), ("log_level", .str "INFO"), ("port", .int 3004),
  ("auto_update", .bool false), ("auto_update_mode", .str "install"), ("auto_update_interval", .int 24),
  ("auto_update_start_time", .str "04:00"), ("clear_on_update", .bool true),
  ("exclude_dirs", .arr [.str "/traefik-proxy-admin/.next/cache", .str "/traefik-proxy-admin/node_modules"]),
  ("platforms", .arr [.str "pnpm"]),
  ("command", .arr [
    .str "/bin/bash", .str "-c",
    .str "if [ -f .next/standalone/server.js ]; then exec node .next/standalone/server.js; else exec pnpm exec next start -H 0.0.0.0 -p \"$PORT\"; fi"]),
  ("config_dir", .str "/traefik-proxy-admin"), ("log_file", .str "/log/traefik_proxy_admin.log"),
  ("env", .obj [
    ("NODE_ENV", .str "production"), ("PORT", .str "3004"), ("HOSTNAME", .str "0.0.0.0"),
    ("ADMIN_AUTH_ENABLED", .str "true"), ("ADMIN_AUTH_PROVIDER", .str "local"),
    ("ADMIN_COOKIE_SECURE", .str "false"), ("TRAEFIK_API_URL", .str "http://127.0.0.1:18081"),
    ("TRAEFIK_ACCESS_LOG_PATH", .str "/log/traefik_access.log"),
    ("TARGET_TEST_ALLOW_CIDRS", .str "10.0.0.0/16,172.20.0.0/16,192.168.0.0/16,127.0.0.0/8"),
    ("NEXT_TELEMETRY_DISABLED", .str "1"), ("HOME", .str "/traefik-proxy-admin"),
    ("PNPM_HOME", .str "/config/.pnpm-store/traefik-proxy-admin-runtime/pnpm-home"),
    ("XDG_DATA_HOME", .str "/config/.pnpm-store/traefik-proxy-admin-runtime/xdg-data"),
    ("XDG_CACHE_HOME", .str "/config/.pnpm-store/traefik-proxy-admin-runtime/xdg-cache"),
    ("npm_config_userconfig", .str "/traefik-proxy-admin/.npmrc"),
    ("npm_config_cache", .str "/config/.pnpm-store/traefik-proxy-admin-runtime/npm-cache"),
    ("npm_config_store_dir", .str "/config/.pnpm-store/traefik-proxy-admin-runtime/store")]),
  ("wait_for_tcp", .arr [
    .obj [("name", .str "PostgreSQL"), ("host", .str "127.0.0.1"), ("port", .int 5432), ("timeout", .int 2)]])]

def authelia : Json := .obj [
  ("enabled", .bool false), ("process_name", .str "Authelia"), ("repo_owner", .str "authelia"),
  ("repo_name", .str "authelia"), ("release_version_enabled", .bool false), ("release_version", .str "latest"),
  ("suppress_logging", .bool false), ("log_level", .str "INFO"), ("port", .int 9091),
  ("auto_update", .bool false), ("auto_update_mode", .str "install"), ("auto_update_interval", .int 24),
  ("auto_update_start_time", .str "04:00"), ("install_dir", .str "/authelia"),
  ("config_dir", .str "/config/authelia"), ("config_file", .str "/config/authelia/configuration.yml"),
  ("log_file", .str "/log/authelia.log"), ("public_url", .str ""), ("cookie_domain", .str ""),
  ("default_redirection_url", .str ""), ("authorization_policy", .str "two_factor"),
  ("notifier", .obj [
    ("type", .str "filesystem"), ("address", .str ""), ("username", .str ""), ("sender", .str ""),
    ("startup_check_address", .str ""), ("disable_require_tls", .bool false)]),
  ("command", .arr [.str "/authelia/authelia", .str "--config", .str "/config/authelia/configuration.yml"]),
  ("env", .obj []),
  ("wait_for_tcp", .arr [
    .obj [("name", .str "PostgreSQL"), ("host", .str "127.0.0.1"), ("port", .int 5432), ("timeout", .int 2)]])]

def cloudflared : Json := .obj [
  ("enabled", .bool false), ("process_name", .str "Cloudflared"), ("pinned_version", .str "latest"),
  ("suppress_logging", .bool false), ("log_level", .str "INFO"), ("auto_update", .bool false),
  ("auto_update_mode", .str "install"), ("auto_update_interval", .int 24),
  ("auto_update_start_time", .str "04:00"), ("config_dir", .str "/cloudflared"),
  ("log_file", .str "/log/cloudflared.log"), ("tunnel_token", .str ""),
  ("command", .arr [
    .str "/bin/bash", .str "-c",
    .str "exec /cloudflared/cloudflared tunnel --no-autoupdate run --token \"$TUNNEL_TOKEN\""]),
  ("env", .obj [("HOME", .str "/cloudflared")])]

def cliDebrid : Json := .obj [
  ("enabled", .bool false), ("process_name", .str "CLI Debrid"), ("repo_owner", .str "godver3"),
  ("repo_name", .str "cli_debrid"), ("release_version_enabled", .bool false),
  ("release_version", .str "v0.6.07"), ("commit_sha", .str ""), ("branch_enabled", .bool false),
  ("branch", .str "main"), ("suppress_logging", .bool false), ("log_level", .str "INFO"), ("port", .int 5000),
  ("auto_update", .bool false), ("auto_update_mode", .str "install"), ("auto_update_interval", .int 24),
  ("auto_update_start_time", .str "04:00"), ("symlink_backup_enabled", .bool false),
  ("symlink_backup_interval", .int 168), ("symlink_backup_start_time", .str "04:00"),
  ("symlink_backup_path", .str "/config/symlink-repair/snapshots/cli-debrid-\x7btimestamp\x7d.json"),
  ("symlink_backup_include_broken", .bool true), ("symlink_backup_retention_count", .int 1),
  ("symlink_backup_roots", .arr [.str "/mnt/debrid/clid_symlinks"]), ("clear_on_update", .bool true),
  ("exclude_dirs", .arr [.str "/cli_debrid/data"]), ("platforms", .arr [.str "python"]),
  ("command", .arr [.str "/cli_debrid/venv/bin/python", .str "main.py"]), ("config_dir", .str "/cli_debrid"),
  ("config_file", .str "/cli_debrid/data/config/config.json"),
  ("log_file", .str "/cli_debrid/data/logs/debug.log"),
  ("env", .obj [
    ("USER_CONFIG", .str "/cli_debrid/data/config/"), ("USER_LOGS", .str "/cli_debrid/data/logs/"),
    ("USER_DB_CONTENT", .str "/cli_debrid/data/db_content/"), ("CLI_DEBRID_PORT", .str "\x7bport\x7d")])]

def cliBattery : Json := .obj [
  ("enabled", .bool false), ("process_name", .str "CLI Battery"), ("suppress_logging", .bool false),
  ("log_level", .str "INFO"), ("port", .int 5001), ("platforms", .arr [.str "python"]),
  ("command", .arr [.str "/cli_debrid/venv/bin/python", .str "cli_battery/main.py"]),
  ("config_dir", .str "/cli_debrid"), ("config_file", .str "/cli_debrid/data/config/settings.json"),
  ("log_file", .str "/cli_debrid/data/logs/battery_debug.log"),
  ("env", .obj [
    ("PYTHONPATH", .str "/cli_debrid"), ("USER_CONFIG", .str "/cli_debrid/data/config/"),
    ("USER_LOGS", .str "/cli_debrid/data/logs/"), ("USER_DB_CONTENT", .str "/cli_debrid/data/db_content/"),
    ("CLI_DEBRID_BATTERY_PORT", .str "\x7bport\x7d")])]

def decypharr : Json := .obj [
  ("enabled", .bool false), ("process_name", .str "Decypharr"), ("repo_owner", .str "sirrobot01"),
  ("repo_name", .str "decypharr"), ("release_version_enabled", .bool false), ("release_version", .str "v1.0.0"),
  ("commit_sha", .str ""), ("branch_enabled", .bool false), ("branch", .str "main"),
  ("suppress_logging", .bool false), ("log_level", .str "INFO"), ("port", .int 8282),
  ("auto_update", .bool false), ("auto_update_mode", .str "install"), ("auto_update_interval", .int 24),
  ("auto_update_start_time", .str "04:00"), ("symlink_backup_enabled", .bool false),
  ("symlink_backup_interval", .int 168), ("symlink_backup_start_time", .str "04:00"),
  ("symlink_backup_path", .str "/config/symlink-repair/snapshots/decypharr-\x7btimestamp\x7d.json"),
  ("symlink_backup_include_broken", .bool true), ("symlink_backup_retention_count", .int 1),
  ("symlink_backup_roots", .arr [.str "/mnt/debrid/decypharr_symlinks"]), ("clear_on_update", .bool false),
  ("exclude_dirs", .arr []),
  ("command", .arr [.str "/decypharr/decypharr", .str "--config", .str "/decypharr"]),
  ("config_dir", .str "/decypharr"), ("config_file", .str "/decypharr/config.json"),
  ("log_file", .str "/decypharr/logs/decypharr.log"), ("env", .obj []), ("mount_type", .str "dfs"),
  ("mount_path", .str "/mnt/debrid/decypharr"), ("api_keys", .obj [])]

def infinidysk : Json := .obj [
  ("enabled", .bool false), ("process_name", .str "InfiniDysk"), ("repo_owner", .str "infinidysk"),
  ("repo_name", .str "infinidysk"), ("release_version_enabled", .bool false),
  ("release_version", .str "latest"), ("commit_sha", .str ""), ("branch_enabled", .bool false),
  ("branch", .str "main"), ("suppress_logging", .bool false), ("log_level", .str "INFO"),
  ("frontend_port", .int 3000), ("backend_port", .int 8080), ("postgres_enabled", .bool false),
  ("postgres_database", .str "infinidysk"), ("auto_update", .bool false), ("auto_update_mode", .str "install"),
  ("auto_update_interval", .int 24), ("auto_update_start_time", .str "04:00"),
  ("symlink_backup_enabled", .bool false), ("symlink_backup_interval", .int 168),
  ("symlink_backup_start_time", .str "04:00"),
  ("symlink_backup_path", .str "/config/symlink-repair/snapshots/infinidysk-\x7btimestamp\x7d.json"),
  ("symlink_backup_include_broken", .bool true), ("symlink_backup_retention_count", .int 1),
  ("symlink_backup_roots", .arr [.str "/mnt/debrid/infinidysk-symlinks"]), ("clear_on_update", .bool false),
  ("exclude_dirs", .arr []), ("platforms", .arr [.str "pnpm", .str "dotnet"]), ("command", .arr []),
  ("config_dir", .str "/infinidysk"), ("log_file", .str "/log/infinidysk.log"), ("webdav_password", .str ""),
  ("env", .obj [
    ("SERVICE_PROVIDER", .str "\x7b\"name\":\"DUMB\",\"url\":\"https://dumbarr.com\",\"disabledFeatures\":[]\x7d")])]

def emby : Json := .obj [
  ("enabled", .bool false), ("process_name", .str "Emby Media Server"), ("repo_owner", .str "MediaBrowser"),
  ("repo_name", .str "Emby.Releases"), ("release_version_enabled", .bool false),
  ("release_version", .str "4.8.11.0"), ("use_system_ffmpeg", .bool true), ("suppress_logging", .bool false),
  ("log_level", .str "INFO"), ("port", .int 8096), ("auto_update", .bool false),
  ("auto_update_mode", .str "install"), ("auto_update_interval", .int 24),
  ("auto_update_start_time", .str "04:00"), ("config_dir", .str "/emby"),
  ("config_file", .str "/emby/config/system.xml"), ("log_file", .str "/emby/log/embyserver.txt"),
  ("command", .arr []), ("env", .obj [])]

def jellyfin : Json := .obj [
  ("enabled", .bool false), ("process_name", .str "Jellyfin Media Server"), ("suppress_logging", .bool false),
  ("auto_update", .bool false), ("auto_update_mode", .str "install"), ("auto_update_interval", .int 24),
  ("auto_update_start_time", .str "04:00"), ("pinned_version", .str ""), ("port", .int 8096),
  ("config_dir", .str "/jellyfin"), ("config_file", .str "/jellyfin/config/system.xml"),
  ("log_file", .str "/jellyfin/log/jellyfin.log"), ("command", .arr []), ("env", .obj [])]

def lidarr : Json := .obj [
  ("instances", .obj [
    ("Default", .obj [
      ("enabled", .bool false), ("core_service", .str ""), ("use_neutarr", .bool false),
      ("postgres_enabled", .bool false), ("postgres_main_db", .str ""), ("postgres_log_db", .str ""),
      ("process_name", .str "Lidarr"), ("repo_owner", .str "Lidarr"), ("repo_name", .str "Lidarr"),
      ("release_version_enabled", .bool false), ("release_version", .str "latest"),
      ("suppress_logging", .bool false), ("auto_update", .bool false), ("auto_update_mode", .str "install"),
      ("auto_update_interval", .int 24), ("auto_update_start_time", .str "04:00"),
      ("clear_on_update", .bool false), ("exclude_dirs", .arr []), ("platforms", .arr []),
      ("pinned_version", .str ""), ("port", .int 8686), ("config_dir", .str "/lidarr/default"),
      ("config_file", .str "/lidarr/default/config.xml"), ("log_file", .str "/lidarr/default/logs/lidarr.txt"),
      ("command", .arr []), ("env", .obj [])])])]

def phalanxDb : Json := .obj [
  ("enabled", .bool false), ("process_name", .str "Phalanx DB"), ("repo_owner", .str "godver3"),
  ("repo_name", .str "phalanx_db_hyperswarm"), ("release_version_enabled", .bool false),
  ("release_version", .str "v0.50"), ("commit_sha", .str ""), ("branch_enabled", .bool false),
  ("branch", .str "main"), ("suppress_logging", .bool false), ("log_level", .str "INFO"), ("port", .int 8888),
  ("auto_update", .bool false), ("auto_update_mode", .str "install"), ("auto_update_interval", .int 24),
  ("auto_update_start_time", .str "04:00"), ("clear_on_update", .bool true),
  ("exclude_dirs", .arr [.str "/phalanx_db/data"]), ("platforms", .arr [.str "pnpm"]),
  ("command", .arr [.str "node", .str "phalanx_db_rest.js"]), ("config_dir", .str "/phalanx_db"),
  ("log_file", .str "/log/phalanx_db.log"), ("env", .obj [])]

def plex : Json := .obj [
  ("enabled", .bool false), ("process_name", .str "Plex Media Server"), ("suppress_logging", .bool false),
  ("log_level", .str "INFO"), ("port", .int 32400), ("auto_update", .bool false),
  ("auto_update_mode", .str "install"), ("auto_update_interval", .int 24),
  ("auto_update_start_time", .str "04:00"), ("pinned_version", .str ""), ("config_dir", .str "/plex"),
  ("config_file", .str "/plex/Plex Media Server/Preferences.xml"),
  ("log_file", .str "/plex/Plex Media Server/Logs/Plex Media Server.log"), ("plex_claim", .str ""),
  ("friendly_name", .str "DUMB"),
  ("dbrepair", .obj [
    ("enabled", .bool false), ("run_before_start", .bool false), ("interval_minutes", .int 10080),
    ("idle_check_minutes", .int 5), ("backoff_multiplier", .float 2), ("max_backoff_minutes", .int 60),
    ("max_wait_minutes", .int 0), ("install_dir", .str "/data/dbrepair"), ("executable", .str "DBRepair.sh"),
    ("sqlite_path", .str "/usr/lib/plexmediaserver/Plex SQLite"),
    ("databases_path", .str "/plex/Plex Media Server/Plug-in Support/Databases"), ("required_args", .arr []),
    ("script_args", .arr [.str "auto"]), ("log_file", .str "/log/plex_dbrepair.log"),
    ("db_path", .str "/plex/Plex Media Server/Plug-in Support/Databases/com.plexapp.plugins.library.db"),
    ("work_dir", .str ""), ("command", .arr []), ("env", .obj [])]),
  ("command", .arr []), ("env", .obj [])]

def tautulli : Json := .obj [
  ("enabled", .bool false), ("process_name", .str "Tautulli"), ("repo_owner", .str "Tautulli"),
  ("repo_name", .str "Tautulli"), ("release_version_enabled", .bool false), ("release_version", .str "latest"),
  ("commit_sha", .str ""), ("branch_enabled", .bool false), ("branch", .str "master"),
  ("suppress_logging", .bool false), ("log_level", .str "INFO"), ("port", .int 8181),
  ("auto_update", .bool false), ("auto_update_mode", .str "install"), ("auto_update_interval", .int 24),
  ("auto_update_start_time", .str "04:00"), ("clear_on_update", .bool true),
  ("exclude_dirs", .arr [.str "/tautulli/data"]), ("platforms", .arr [.str "python"]),
  ("command", .arr [
    .str "/tautulli/venv/bin/python", .str "Tautulli.py", .str "--config", .str "/tautulli/data/config.ini",
    .str "--datadir", .str "/tautulli/data", .str "--nolaunch", .str "--port", .str "\x7bport\x7d"]),
  ("config_dir", .str "/tautulli"), ("config_file", .str "/tautulli/data/config.ini"),
  ("log_file", .str "/tautulli/data/logs/tautulli.log"), ("env", .obj [])]

def bazarr : Json := .obj [
  ("enabled", .bool false), ("postgres_enabled", .bool false), ("postgres_database", .str ""),
  ("process_name", .str "Bazarr"), ("repo_owner", .str "morpheus65535"), ("repo_name", .str "bazarr"),
  ("release_version_enabled", .bool false), ("release_version", .str "latest"),
  ("suppress_logging", .bool false), ("log_level", .str "INFO"), ("port", .int 6767),
  ("auto_update", .bool false), ("auto_update_mode", .str "install"), ("auto_update_interval", .int 24),
  ("auto_update_start_time", .str "04:00"), ("clear_on_update", .bool true),
  ("exclude_dirs", .arr [.str "/opt/bazarr/venv"]), ("platforms", .arr [.str "python"]),
  ("command", .arr [
    .str "/opt/bazarr/venv/bin/python", .str "/opt/bazarr/bazarr.py", .str "--config", .str "/bazarr/data",
    .str "--port", .str "\x7bport\x7d"]),
  ("config_dir", .str "/opt/bazarr"), ("config_file", .str "/bazarr/data/config/config.yaml"),
  ("log_file", .str "/bazarr/data/log/bazarr.log"), ("env", .obj [("NO_UPDATE", .str "true")])]

def pulsarr : Json := .obj [
  ("enabled", .bool false), ("postgres_enabled", .bool false), ("postgres_database", .str ""),
  ("process_name", .str "Pulsarr"), ("repo_owner", .str "jamcalli"), ("repo_name", .str "Pulsarr"),
  ("release_version_enabled", .bool false), ("release_version", .str "latest"), ("commit_sha", .str ""),
  ("branch_enabled", .bool false), ("branch", .str "master"), ("suppress_logging", .bool false),
  ("log_level", .str "INFO"), ("port", .int 3003), ("auto_update", .bool false),
  ("auto_update_mode", .str "install"), ("auto_update_interval", .int 24),
  ("auto_update_start_time", .str "04:00"), ("clear_on_update", .bool true),
  ("exclude_dirs", .arr [.str "/pulsarr/data"]), ("platforms", .arr [.str "bun"]),
  ("command", .arr [.str "/config/.bun/bin/bun", .str "run", .str "--bun", .str "dist/server.js"]),
  ("config_dir", .str "/pulsarr"), ("log_file", .str "/pulsarr/data/logs/pulsarr.log"),
  ("env", .obj [
    ("NODE_ENV", .str "production"), ("listenPort", .str "\x7bport\x7d"),
    ("dbPath", .str "/pulsarr/data/db/pulsarr.db"), ("allowIframes", .str "true")])]

def maintainerr : Json := .obj [
  ("enabled", .bool false), ("process_name", .str "Maintainerr"), ("repo_owner", .str "Maintainerr"),
  ("repo_name", .str "Maintainerr"), ("release_version_enabled", .bool false),
  ("release_version", .str "latest"), ("commit_sha", .str ""), ("branch_enabled", .bool false),
  ("branch", .str "development"), ("suppress_logging", .bool false), ("log_level", .str "INFO"),
  ("port", .int 6246), ("auto_update", .bool false), ("auto_update_mode", .str "install"),
  ("auto_update_interval", .int 24), ("auto_update_start_time", .str "04:00"), ("clear_on_update", .bool true),
  ("exclude_dirs", .arr [.str "/maintainerr/data"]), ("platforms", .arr []),
  ("command", .arr [.str "node", .str "apps/server/dist/main.js"]), ("config_dir", .str "/maintainerr"),
  ("log_file", .str "/maintainerr/data/logs/maintainerr.log"),
  ("env", .obj [
    ("NODE_ENV", .str "production"), ("UI_HOSTNAME", .str "0.0.0.0"), ("UI_PORT", .str "\x7bport\x7d"),
    ("DATA_DIR", .str "/maintainerr/data"), ("BASE_PATH", .str ""), ("VERSION_TAG", .str "stable"),
    ("UV_USE_IO_URING", .str "0")])]

def aiostreams : Json := .obj [
  ("enabled", .bool false), ("process_name", .str "AIOStreams"), ("release_version_enabled", .bool false),
  ("release_version", .str "latest"), ("base_url", .str "http://localhost:3006"),
  ("auth_username", .str "admin"), ("auth_password", .str ""), ("secret_key", .str ""),
  ("database_uri", .str "sqlite://./data/db.sqlite"), ("suppress_logging", .bool false),
  ("log_level", .str "INFO"), ("port", .int 3006), ("auto_update", .bool false),
  ("auto_update_mode", .str "install"), ("auto_update_interval", .int 24),
  ("auto_update_start_time", .str "04:00"),
  ("command", .arr [.str "node", .str "/aiostreams/runtime/packages/server/dist/server.js"]),
  ("config_dir", .str "/aiostreams"), ("log_file", .str "/log/aiostreams.log"),
  ("env", .obj [
    ("NODE_ENV", .str "production"), ("HOME", .str "/aiostreams/data"),
    ("XDG_CACHE_HOME", .str "/aiostreams/data/cache"), ("DISK_CACHE_DIR", .str "/aiostreams/data/cache"),
    ("LD_PRELOAD", .str "/aiostreams/runtime/lib/libmimalloc.so.2"), ("SYSTEM_LIFECYCLE_ENABLED", .str "false")])]

def mediastorm : Json := .obj [
  ("enabled", .bool false), ("process_name", .str "mediastorm"), ("repo_owner", .str "godver3"),
  ("repo_name", .str "mediastorm"), ("release_version_enabled", .bool false),
  ("release_version", .str "latest"), ("suppress_logging", .bool false), ("log_level", .str "INFO"),
  ("port", .int 7777), ("auto_update", .bool false), ("auto_update_mode", .str "install"),
  ("auto_update_interval", .int 24), ("auto_update_start_time", .str "04:00"),
  ("config_dir", .str "/mediastorm"), ("log_file", .str "/log/mediastorm.log"),
  ("wait_for_tcp", .arr [
    .obj [("name", .str "PostgreSQL"), ("host", .str "127.0.0.1"), ("port", .int 5432), ("timeout", .int 2)]]),
  ("command", .arr [.str "/mediastorm/runtime/mediastorm", .str "--port", .str "7777"]),
  ("env", .obj [
    ("STRMR_CONFIG", .str "/mediastorm/settings.json"), ("STRMR_WEB_APP_DIR", .str "/mediastorm/runtime/web"),
    ("MEDIASTORM_IROH_DIRECT_DIR", .str "/mediastorm/runtime/iroh"), ("DATABASE_URL", .str ""),
    ("PATH", .str "/mediastorm/runtime/python-venv/bin:/mediastorm/runtime/bin:/usr/local/go/bin:/usr/local/sbin:/usr/local/bin:/usr/sbin:/usr/bin:/sbin:/bin"),
    ("LD_LIBRARY_PATH", .str "/mediastorm/runtime/lib/jellyfin-ffmpeg/lib"),
    ("LIBGL_ALWAYS_SOFTWARE", .str "1"), ("VK_ICD_FILENAMES", .str "/usr/share/vulkan/icd.d/lavapipe_icd.json")])]

def altmount : Json := .obj [
  ("enabled", .bool false), ("postgres_enabled", .bool false), ("postgres_database", .str ""),
  ("process_name", .str "AltMount"), ("repo_owner", .str "javi11"), ("repo_name", .str "altmount"),
  ("pinned_version", .str "latest"), ("suppress_logging", .bool false), ("log_level", .str "INFO"),
  ("port", .int 8088), ("auto_update", .bool false), ("auto_update_mode", .str "install"),
  ("auto_update_interval", .int 24), ("auto_update_start_time", .str "04:00"), ("mount_type", .str "rclone"),
  ("config_dir", .str "/altmount"), ("config_file", .str "/altmount/config.yaml"),
  ("metadata_dir", .str "/altmount/metadata"), ("mount_path", .str "/mnt/debrid/altmount"),
  ("log_file", .str "/altmount/logs/altmount.log"),
  ("command", .arr [.str "/altmount/altmount", .str "serve", .str "--config", .str "/altmount/config.yaml"]),
  ("env", .obj [
    ("PUID", .str "\x7bpuid\x7d"), ("PGID", .str "\x7bpgid\x7d"), ("PORT", .str "\x7bport\x7d"),
    ("JWT_SECRET", .str ""), ("COOKIE_DOMAIN", .str "localhost"), ("ALTMOUNT_API_KEY", .str "")])]

def neutarr : Json := .obj [
  ("instances", .obj [
    ("Default", .obj [
      ("enabled", .bool false), ("core_service", .str ""), ("process_name", .str "NeutArr"),
      ("repo_owner", .str "I-am-PUID-0"), ("repo_name", .str "NeutArr"),
      ("release_version_enabled", .bool false), ("release_version", .str "latest"), ("commit_sha", .str ""),
      ("branch_enabled", .bool false), ("branch", .str "main"), ("suppress_logging", .bool false),
      ("log_level", .str "INFO"), ("port", .int 9705), ("auto_update", .bool false),
      ("auto_update_mode", .str "install"), ("auto_update_interval", .int 24),
      ("auto_update_start_time", .str "04:00"), ("clear_on_update", .bool false),
      ("exclude_dirs", .arr [.str "/neutarr/default/config"]), ("platforms", .arr [.str "python"]),
      ("command", .arr [.str "/neutarr/default/venv/bin/python", .str "main.py"]),
      ("config_dir", .str "/neutarr/default"), ("config_file", .str "/neutarr/default/config/general.json"),
      ("log_file", .str "/neutarr/default/config/logs/neutarr.log"),
      ("env", .obj [("NEUTARR_CONFIG_DIR", .str "/neutarr/default/config"), ("NEUTARR_PORT", .str "\x7bport\x7d")])])])]

def seerrSync : Json := .obj [
  ("enabled", .bool false), ("poll_interval_seconds", .int 60),
  ("external_primary", .obj [("enabled", .bool false), ("url", .str ""), ("api_key", .str "")]),
  ("external_subordinates", .arr []),
  ("options", .obj [
    ("sync_pending", .bool true), ("sync_approved", .bool true), ("sync_declined", .bool false),
    ("sync_deletes", .bool true), ("sync_4k_separately", .bool true), ("user_mapping", .str "admin"),
    ("retry_failed_after_hours", .int 24)])]

def profilarr : Json := .obj [
  ("instances", .obj [
    ("Default", .obj [
      ("enabled", .bool false), ("core_service", .str ""), ("process_name", .str "Profilarr"),
      ("repo_owner", .str "Dictionarry-Hub"), ("repo_name", .str "profilarr"),
      ("release_version_enabled", .bool false), ("release_version", .str "latest"), ("commit_sha", .str ""),
      ("branch_enabled", .bool false), ("branch", .str "main"), ("suppress_logging", .bool false),
      ("log_level", .str "INFO"), ("port", .int 6868), ("auto_update", .bool false),
      ("auto_update_mode", .str "install"), ("auto_update_interval", .int 24),
      ("auto_update_start_time", .str "04:00"), ("clear_on_update", .bool true),
      ("exclude_dirs", .arr [.str "/profilarr/default/config"]),
      ("platforms", .arr [.str "python", .str "pnpm"]),
      ("command", .arr [
        .str "/profilarr/default/backend/venv/bin/gunicorn", .str "--chdir", .str "/profilarr/default/backend",
        .str "--bind", .str "0.0.0.0:\x7bport\x7d", .str "--timeout", .str "600", .str "app.main:create_app()"]),
      ("config_dir", .str "/profilarr/default"),
      ("log_file", .str "/profilarr/default/config/log/profilarr.log"),
      ("env", .obj [
        ("PROFILARR_CONFIG_DIR", .str "/profilarr/default/config"), ("FLASK_ENV", .str "production"),
        ("PYTHONPATH", .str "/profilarr/default/backend")])])])]

def seerr : Json := .obj [
  ("instances", .obj [
    ("Default", .obj [
      ("enabled", .bool false), ("postgres_enabled", .bool false), ("postgres_database", .str ""),
      ("sync_role", .str "disabled"), ("core_service", .str ""), ("process_name", .str "Seerr"),
      ("repo_owner", .str "seerr-team"), ("repo_name", .str "seerr"), ("release_version_enabled", .bool false),
      ("release_version", .str "latest"), ("commit_sha", .str ""), ("branch_enabled", .bool false),
      ("branch", .str "main"), ("suppress_logging", .bool false), ("log_level", .str "INFO"),
      ("port", .int 5055), ("auto_update", .bool false), ("auto_update_mode", .str "install"),
      ("auto_update_interval", .int 24), ("auto_update_start_time", .str "04:00"),
      ("clear_on_update", .bool true), ("exclude_dirs", .arr [.str "/seerr/default/config"]),
      ("platforms", .arr [.str "pnpm"]), ("command", .arr [.str "node", .str "dist/index.js"]),
      ("config_dir", .str "/seerr/default"), ("config_file", .str "/seerr/default/config/settings.json"),
      ("log_file", .str "/seerr/default/config/logs/jellyseerr.log"),
      ("env", .obj [("NODE_ENV", .str "production"), ("PORT", .str "\x7bport\x7d")])])])]

def postgres : Json := .obj [
  ("enabled", .bool false), ("process_name", .str "PostgreSQL"), ("suppress_logging", .bool false),
  ("log_level", .str "INFO"), ("host", .str "127.0.0.1"), ("port", .int 5432),
  ("databases", .arr [
    .obj [("name", .str "postgres"), ("enabled", .bool true)],
    .obj [("name", .str "pgadmin"), ("enabled", .bool true)],
    .obj [("name", .str "zilean"), ("enabled", .bool true)],
    .obj [("name", .str "riven"), ("enabled", .bool true)],
    .obj [("name", .str "traefik_proxy_admin"), ("enabled", .bool true)]]),
  ("config_dir", .str "/postgres_data"), ("config_file", .str "/postgres_data/postgresql.conf"),
  ("log_file", .str "/log/postgres.log"), ("initdb_args", .str "--data-checksums"), ("user", .str "DUMB"),
  ("password", .str "postgres"), ("shared_buffers", .str "128MB"), ("max_connections", .int 100),
  ("run_directory", .str "/run/postgresql"),
  ("command", .str "postgres -D \x7bpostgres_config_dir\x7d -c config_file=\x7bpostgres_config_file\x7d"),
  ("env", .obj [])]

def pgadmin : Json := .obj [
  ("enabled", .bool false), ("process_name", .str "pgAdmin4"), ("config_dir", .str "/pgadmin/data"),
  ("config_file", .str "/pgadmin/data/config_local.py"), ("log_file", .str "/pgadmin/data/pgadmin4.log"),
  ("port", .int 5050), ("default_server", .str "0.0.0.0"), ("setup_email", .str "DUMB@DUMB.DUMB"),
  ("setup_password", .str "postgres"), ("command", .str "")]

def prowlarr : Json := .obj [
  ("instances", .obj [
    ("Default", .obj [
      ("enabled", .bool false), ("postgres_enabled", .bool false), ("postgres_main_db", .str ""),
      ("postgres_log_db", .str ""), ("process_name", .str "Prowlarr"), ("repo_owner", .str "Prowlarr"),
      ("repo_name", .str "Prowlarr"), ("release_version_enabled", .bool false),
      ("release_version", .str "latest"), ("suppress_logging", .bool false), ("auto_update", .bool false),
      ("auto_update_mode", .str "install"), ("auto_update_interval", .int 24),
      ("auto_update_start_time", .str "04:00"), ("clear_on_update", .bool false), ("exclude_dirs", .arr []),
      ("platforms", .arr []), ("pinned_version", .str ""), ("port", .int 9696),
      ("config_dir", .str "/prowlarr/default"), ("config_file", .str "/prowlarr/default/config.xml"),
      ("log_file", .str "/prowlarr/default/logs/prowlarr.txt"), ("command", .arr []), ("env", .obj [])])])]

def rclone : Json := .obj [
  ("instances", .obj [
    ("RealDebrid", .obj [
      ("enabled", .bool false), ("core_service", .str ""), ("process_name", .str "rclone w/ RealDebrid"),
      ("suppress_logging", .bool false), ("log_level", .str "INFO"), ("key_type", .str "RealDebrid"),
      ("zurg_enabled", .bool true), ("decypharr_enabled", .bool false), ("mount_dir", .str "/mnt/debrid"),
      ("mount_name", .str "rclone_RD"), ("cache_dir", .str "/cache"), ("config_dir", .str "/config"),
      ("config_file", .str "/config/rclone.config"), ("log_file", .str "/log/rclone_w_realdebrid.log"),
      ("zurg_config_file", .str "/zurg/RD/config.yml"), ("command", .arr []), ("api_key", .str ""),
      ("username", .str ""), ("password", .str ""), ("customer_id", .str "")])])]

def rivenBackend : Json := .obj [
  ("enabled", .bool false), ("process_name", .str "Riven Backend"), ("repo_owner", .str "rivenmedia"),
  ("repo_name", .str "riven"), ("release_version_enabled", .bool false), ("release_version", .str "v0.20.1"),
  ("commit_sha", .str ""), ("branch_enabled", .bool false), ("branch", .str "release-please--branches--main"),
  ("suppress_logging", .bool false), ("log_level", .str "INFO"), ("host", .str "127.0.0.1"),
  ("port", .int 8080), ("auto_update", .bool false), ("auto_update_mode", .str "install"),
  ("auto_update_interval", .int 24), ("auto_update_start_time", .str "04:00"),
  ("symlink_backup_enabled", .bool false), ("symlink_backup_interval", .int 168),
  ("symlink_backup_start_time", .str "04:00"),
  ("symlink_backup_path", .str "/config/symlink-repair/snapshots/riven-backend-\x7btimestamp\x7d.json"),
  ("symlink_backup_include_broken", .bool true), ("symlink_backup_retention_count", .int 1),
  ("symlink_backup_roots", .arr [.str "/mnt/debrid/riven_symlinks"]),
  ("symlink_library_path", .str "/mnt/debrid/riven_symlinks"), ("clear_on_update", .bool true),
  ("exclude_dirs", .arr [.str "/riven/backend/data"]),
  ("env_copy", .obj [("source", .str "/riven/backend/data/.env"), ("destination", .str "/riven/backend/src/.env")]),
  ("platforms", .arr [.str "python"]),
  ("command", .arr [.str "/riven/backend/venv/bin/python", .str "src/main.py", .str "-p", .str "\x7bport\x7d"]),
  ("config_dir", .str "/riven/backend"), ("config_file", .str "/riven/backend/data/settings.json"),
  ("log_file", .str "/log/riven_backend.log"), ("env", .obj []), ("wait_for_dir", .str "")]

def rivenFrontend : Json := .obj [
  ("enabled", .bool false), ("process_name", .str "Riven Frontend"), ("repo_owner", .str "rivenmedia"),
  ("repo_name", .str "riven-frontend"), ("release_version_enabled", .bool false),
  ("release_version", .str "v0.17.0"), ("commit_sha", .str ""), ("branch_enabled", .bool false),
  ("branch", .str "release-please--branches--main"), ("suppress_logging", .bool false),
  ("log_level", .str "INFO"), ("host", .str "0.0.0.0"), ("port", .int 3000), ("auto_update", .bool false),
  ("auto_update_mode", .str "install"), ("auto_update_interval", .int 24),
  ("auto_update_start_time", .str "04:00"), ("origin", .str ""), ("clear_on_update", .bool true),
  ("exclude_dirs", .arr []), ("platforms", .arr [.str "pnpm"]), ("command", .arr [.str "node", .str "build"]),
  ("config_dir", .str "/riven/frontend"), ("log_file", .str "/log/riven_frontend.log"), ("env", .obj [])]

def radarr : Json := .obj [
  ("instances", .obj [
    ("Default", .obj [
      ("enabled", .bool false), ("core_service", .str ""), ("use_neutarr", .bool false),
      ("use_profilarr", .bool false), ("postgres_enabled", .bool false), ("postgres_main_db", .str ""),
      ("postgres_log_db", .str ""), ("process_name", .str "Radarr"), ("repo_owner", .str "Radarr"),
      ("repo_name", .str "Radarr"), ("release_version_enabled", .bool false),
      ("release_version", .str "latest"), ("suppress_logging", .bool false), ("auto_update", .bool false),
      ("auto_update_mode", .str "install"), ("auto_update_interval", .int 24),
      ("auto_update_start_time", .str "04:00"), ("clear_on_update", .bool false), ("exclude_dirs", .arr []),
      ("platforms", .arr []), ("pinned_version", .str ""), ("port", .int 7878),
      ("config_dir", .str "/radarr/default"), ("config_file", .str "/radarr/default/config.xml"),
      ("log_file", .str "/radarr/default/logs/radarr.txt"), ("command", .arr []), ("env", .obj [])])])]

def sonarr : Json := .obj [
  ("instances", .obj [
    ("Default", .obj [
      ("enabled", .bool false), ("core_service", .str ""), ("use_neutarr", .bool false),
      ("use_profilarr", .bool false), ("postgres_enabled", .bool false), ("postgres_main_db", .str ""),
      ("postgres_log_db", .str ""), ("process_name", .str "Sonarr"), ("repo_owner", .str "Sonarr"),
      ("repo_name", .str "Sonarr"), ("release_version_enabled", .bool false),
      ("release_version", .str "latest"), ("suppress_logging", .bool false), ("auto_update", .bool false),
      ("auto_update_mode", .str "install"), ("auto_update_interval", .int 24),
      ("auto_update_start_time", .str "04:00"), ("clear_on_update", .bool false), ("exclude_dirs", .arr []),
      ("platforms", .arr []), ("pinned_version", .str ""), ("port", .int 8989),
      ("config_dir", .str "/sonarr/default"), ("config_file", .str "/sonarr/default/config.xml"),
      ("log_file", .str "/sonarr/default/logs/sonarr.txt"), ("command", .arr []), ("env", .obj [])])])]

def whisparr : Json := .obj [
  ("instances", .obj [
    ("Default", .obj [
      ("enabled", .bool false), ("core_service", .str ""), ("use_neutarr", .bool false),
      ("postgres_enabled", .bool false), ("postgres_main_db", .str ""), ("postgres_log_db", .str ""),
      ("process_name", .str "Whisparr"), ("repo_owner", .str "Whisparr"), ("repo_name", .str "Whisparr"),
      ("release_version_enabled", .bool false), ("release_version", .str "latest"),
      ("suppress_logging", .bool false), ("auto_update", .bool false), ("auto_update_mode", .str "install"),
      ("auto_update_interval", .int 24), ("auto_update_start_time", .str "04:00"),
      ("clear_on_update", .bool false), ("exclude_dirs", .arr []), ("platforms", .arr []),
      ("pinned_version", .str ""), ("port", .int 6969), ("config_dir", .str "/whisparr/default"),
      ("config_file", .str "/whisparr/default/config.xml"),
      ("log_file", .str "/whisparr/default/logs/whisparr.txt"), ("command", .arr []), ("env", .obj [])])])]

def zilean : Json := .obj [
  ("enabled", .bool false), ("process_name", .str "Zilean"), ("repo_owner", .str "iPromKnight"),
  ("repo_name", .str "zilean"), ("release_version_enabled", .bool false), ("release_version", .str "v3.3.0"),
  ("commit_sha", .str ""), ("branch_enabled", .bool false), ("branch", .str "main"),
  ("suppress_logging", .bool false), ("log_level", .str "INFO"), ("host", .str "127.0.0.1"),
  ("port", .int 8182), ("auto_update", .bool false), ("auto_update_mode", .str "install"),
  ("auto_update_interval", .int 24), ("auto_update_start_time", .str "04:00"), ("clear_on_update", .bool true),
  ("exclude_dirs", .arr [.str "/zilean/app/data"]),
  ("env_copy", .obj [("source", .str "/zilean/app/data/.env"), ("destination", .str "/zilean/app/src/.env")]),
  ("platforms", .arr [.str "python", .str "dotnet"]), ("command", .arr [.str "/zilean/app/zilean-api"]),
  ("config_dir", .str "/zilean"), ("config_file", .str "/zilean/app/data/settings.json"),
  ("log_file", .str "/log/zilean.log"),
  ("env", .obj [
    ("DOTNET_RUNNING_IN_CONTAINER", .str "true"), ("DOTNET_gcServer", .str "1"),
    ("DOTNET_GCDynamicAdaptationMode", .str "1"), ("DOTNET_SYSTEM_GLOBALIZATION_INVARIANT", .str "false"),
    ("PYTHONUNBUFFERED", .str "1"), ("ASPNETCORE_URLS", .str "http://+:\x7bport\x7d"),
    ("PYTHONPATH", .str "/zilean/venv/lib/python3.11/site-packages"),
    ("PATH", .str "/zilean/venv/bin:$\x7bPATH\x7d"),
    ("ZILEAN_PYTHON_PYLIB", .str "/usr/local/lib/libpython3.11.so.1.0"),
    ("Zilean__Database__ConnectionString", .str "Host=\x7bpostgres_host\x7d;Port=\x7bpostgres_port\x7d;Database=zilean;Username=\x7bpostgres_user\x7d;Password=\x7bpostgres_password\x7d;Timeout=300;CommandTimeout=3600;")])]

def zurg : Json := .obj [
  ("instances", .obj [
    ("RealDebrid", .obj [
      ("enabled", .bool false), ("core_service", .str ""), ("process_name", .str "Zurg w/ RealDebrid"),
      ("repo_owner", .str "debridmediamanager"), ("repo_name", .str "zurg-testing"),
      ("release_version_enabled", .bool false), ("release_version", .str "v0.9.3-final"),
      ("suppress_logging", .bool false), ("log_level", .str "INFO"), ("host", .str "127.0.0.1"),
      ("port", .int 9090), ("auto_update", .bool false), ("auto_update_mode", .str "install"),
      ("auto_update_interval", .int 24), ("auto_update_start_time", .str "04:00"),
      ("clear_on_update", .bool false), ("exclude_dirs", .arr [.str "/zurg/RD"]),
      ("key_type", .str "RealDebrid"), ("config_dir", .str "/zurg/RD"),
      ("config_file", .str "/zurg/RD/config.yml"), ("command", .str "/zurg/RD/zurg"), ("user", .str ""),
      ("password", .str ""), ("api_key", .str "")])])]

def config : List (String × Json) :=
  [("puid", puid), ("pgid", pgid), ("tz", tz), ("data_root", dataRoot), ("dumb", dumb), ("traefik", traefik),
    ("traefik_proxy_admin", traefikProxyAdmin), ("authelia", authelia), ("cloudflared", cloudflared),
    ("cli_debrid", cliDebrid), ("cli_battery", cliBattery), ("decypharr", decypharr), ("infinidysk", infinidysk),
    ("emby", emby), ("jellyfin", jellyfin), ("lidarr", lidarr), ("phalanx_db", phalanxDb), ("plex", plex),
    ("tautulli", tautulli), ("bazarr", bazarr), ("pulsarr", pulsarr), ("maintainerr", maintainerr), ("aiostreams",
    aiostreams), ("mediastorm", mediastorm), ("altmount", altmount), ("neutarr", neutarr), ("seerr_sync",
    seerrSync), ("profilarr", profilarr), ("seerr", seerr), ("postgres", postgres), ("pgadmin", pgadmin),
    ("prowlarr", prowlarr), ("rclone", rclone), ("riven_backend", rivenBackend), ("riven_frontend",
    rivenFrontend), ("radarr", radarr), ("sonarr", sonarr), ("whisparr", whisparr), ("zilean", zilean), ("zurg",
    zurg)]

end Dumb.Config.Shipped
